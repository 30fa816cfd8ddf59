import Mathlib.Algebra.Group.Nat.Defs
import Mathlib.Logic.Function.Basic
import Matchbox.Wire.Message

/-!
# Connections

`net.hpp`, `net.cpp` and the interest table of `poller.cpp`: a non-blocking connection with buffered output. What `::write` returns is decided by the kernel, so a flush takes the list of its results; when the list is used up the socket is taken to be full.
-/

namespace Matchbox

/-- The readiness registrations: for a registered descriptor, whether write interest is on. -/
def Poller := Nat → Option Bool

namespace Poller

def init : Poller := fun _ => none

/-- Read interest. -/
def add (p : Poller) (fd : Nat) : Poller :=
  if (p fd).isSome then p else Function.update p fd (some false)

def setWritable (p : Poller) (fd : Nat) (on : Bool) : Poller :=
  Function.update p fd ((p fd).map fun _ => on)

def remove (p : Poller) (fd : Nat) : Poller := Function.update p fd none

end Poller

/-- The outcome of one `::write`. -/
inductive WriteResult where
  /-- The kernel took this many bytes, or all if there are fewer. -/
  | wrote (n : Nat)
  /-- `EAGAIN` or `EWOULDBLOCK`. -/
  | again
  /-- `EINTR`. -/
  | intr
  /-- Any other error. -/
  | error
deriving DecidableEq, Repr

structure Conn where
  fd : Nat
  rx : List UInt8 := []
  tx : List UInt8 := []
  txOff : Nat := 0
  outSeq : Nat := 1
  wantWrite : Bool := false
  /-- Ghost: everything ever appended to `tx`, one entry for each append. No code reads it. -/
  appended : List (List UInt8) := []
  /-- Ghost: the bytes that `::write` accepted. No code reads it. -/
  sent : List UInt8 := []

namespace Conn

def pending (c : Conn) : Bool := c.txOff < c.tx.length

def backlog (c : Conn) : Nat := c.tx.length - c.txOff

/-- `tx.insert(tx.end(), ...)`. -/
def append (c : Conn) (bytes : List UInt8) : Conn :=
  { c with tx := c.tx ++ bytes, appended := c.appended ++ [bytes] }

def queue (c : Conn) (m : Wire.Message) : Conn :=
  { c.append (m.make c.outSeq) with outSeq := (c.outSeq + 1) % word32 }

/-- The loop of `flush`; false on a fatal socket error. -/
def writeLoop (c : Conn) : List WriteResult → Conn × Bool
  | [] => (c, true)
  | r :: results =>
      if c.txOff < c.tx.length then
        match r with
        | .wrote n =>
            let n := min n (c.tx.length - c.txOff)
            if n = 0 then (c, false)
            else writeLoop { c with txOff := c.txOff + n, sent := c.sent ++ (c.tx.drop c.txOff).take n } results
        | .again => (c, true)
        | .intr => writeLoop c results
        | .error => (c, false)
      else (c, true)

/-- Forget what was sent: all of it when nothing is pending, else only in large pieces. -/
def compact (c : Conn) : Conn :=
  if c.txOff = c.tx.length then { c with tx := [], txOff := 0 }
  else if c.txOff > 2 ^ 16 then { c with tx := c.tx.drop c.txOff, txOff := 0 }
  else c

def flush (c : Conn) (results : List WriteResult) : Conn × Bool :=
  let r := c.writeLoop results
  if r.2 then (r.1.compact, true) else r

/-- Flush and set write interest to whether bytes are left; false if the peer is gone. -/
def flushAndArm (c : Conn) (p : Poller) (results : List WriteResult) : Conn × Poller × Bool :=
  let r := c.flush results
  if r.2 = false then (r.1, p, false)
  else
    let need := r.1.pending
    if need ≠ r.1.wantWrite then ({ r.1 with wantWrite := need }, p.setWritable r.1.fd need, true)
    else (r.1, p, true)

/-! ### What a flush keeps -/

/-- The bytes the kernel took, followed by the pending ones, are the bytes appended. -/
structure Conserved (c : Conn) : Prop where
  bytes : c.sent ++ c.tx.drop c.txOff = c.appended.flatten
  txOff_le : c.txOff ≤ c.tx.length

theorem Conserved.append {c : Conn} (h : c.Conserved) (bytes : List UInt8) : (c.append bytes).Conserved where
  bytes := by
    change c.sent ++ (c.tx ++ bytes).drop c.txOff = (c.appended ++ [bytes]).flatten
    rw [List.drop_append_of_le_length h.txOff_le, ← List.append_assoc, h.bytes]
    simp
  txOff_le := by
    change c.txOff ≤ (c.tx ++ bytes).length
    rw [List.length_append]
    exact Nat.le_trans h.txOff_le (Nat.le_add_right _ _)

/-- What every successful write keeps, the loop keeps. -/
theorem writeLoop_inv {P : Conn → Prop}
    (hwrote : ∀ c n, c.txOff + n ≤ c.tx.length → P c →
      P { c with txOff := c.txOff + n, sent := c.sent ++ (c.tx.drop c.txOff).take n })
    {c : Conn} (h : P c) (results : List WriteResult) : P (c.writeLoop results).1 := by
  induction results generalizing c with
  | nil => exact h
  | cons r results ih =>
      unfold writeLoop
      by_cases hlt : c.txOff < c.tx.length
      · rw [if_pos hlt]
        cases r with
        | wrote n =>
            dsimp only
            split
            · exact h
            · exact ih (hwrote c _ (by omega) h)
        | again => exact h
        | intr => exact ih h
        | error => exact h
      · rw [if_neg hlt]
        exact h

theorem Conserved.writeLoop {c : Conn} (h : c.Conserved) (results : List WriteResult) :
    (c.writeLoop results).1.Conserved := by
  refine writeLoop_inv (fun c n hle h => ⟨?_, hle⟩) h results
  change (c.sent ++ (c.tx.drop c.txOff).take n) ++ c.tx.drop (c.txOff + n) = c.appended.flatten
  rw [← List.drop_drop, List.append_assoc, List.take_append_drop, h.bytes]

theorem Conserved.compact {c : Conn} (h : c.Conserved) : c.compact.Conserved := by
  rw [Conn.compact]
  split
  · rename_i hall
    refine ⟨?_, Nat.le_refl _⟩
    have hbytes := h.bytes
    rw [hall, List.drop_length] at hbytes
    exact hbytes
  · split
    · exact ⟨h.bytes, Nat.zero_le _⟩
    · exact h

theorem Conserved.flush {c : Conn} (h : c.Conserved) (results : List WriteResult) : (c.flush results).1.Conserved := by
  rw [Conn.flush]
  split
  · exact (h.writeLoop results).compact
  · exact h.writeLoop results

theorem Conserved.flushAndArm {c : Conn} (h : c.Conserved) (p : Poller) (results : List WriteResult) :
    (c.flushAndArm p results).1.Conserved := by
  have hflush := h.flush results
  rw [Conn.flushAndArm]
  dsimp only
  split
  · exact hflush
  · split
    · exact ⟨hflush.bytes, hflush.txOff_le⟩
    · exact hflush

/-- All that writing changes about a connection. -/
def Written (c c' : Conn) : Prop :=
  ∃ tx off sent want, c' = { c with tx := tx, txOff := off, sent := sent, wantWrite := want }

theorem Written.refl (c : Conn) : c.Written c := ⟨_, _, _, _, rfl⟩

theorem Written.trans {c c' c'' : Conn} (h : c.Written c') (h' : c'.Written c'') : c.Written c'' := by
  obtain ⟨tx, off, sent, want, rfl⟩ := h
  obtain ⟨tx', off', sent', want', rfl⟩ := h'
  exact ⟨tx', off', sent', want', rfl⟩

theorem writeLoop_written (c : Conn) (results : List WriteResult) : c.Written (c.writeLoop results).1 :=
  writeLoop_inv (fun _ _ _ h => h.trans ⟨_, _, _, _, rfl⟩) (.refl c) results

theorem compact_written (c : Conn) : c.Written c.compact := by
  rw [compact]
  split
  · exact ⟨_, _, _, _, rfl⟩
  · split
    · exact ⟨_, _, _, _, rfl⟩
    · exact .refl c

theorem flush_written (c : Conn) (results : List WriteResult) : c.Written (c.flush results).1 := by
  rw [flush]
  split
  · exact (c.writeLoop_written results).trans (compact_written _)
  · exact c.writeLoop_written results

theorem flushAndArm_written (c : Conn) (p : Poller) (results : List WriteResult) :
    c.Written (c.flushAndArm p results).1 := by
  have hflush := c.flush_written results
  rw [flushAndArm]
  dsimp only
  split
  · exact hflush
  · split
    · exact hflush.trans ⟨_, _, _, _, rfl⟩
    · exact hflush

@[simp] theorem flush_appended (c : Conn) (results : List WriteResult) :
    (c.flush results).1.appended = c.appended := by
  obtain ⟨_, _, _, _, h⟩ := c.flush_written results
  rw [h]

@[simp] theorem flushAndArm_appended (c : Conn) (p : Poller) (results : List WriteResult) :
    (c.flushAndArm p results).1.appended = c.appended := by
  obtain ⟨_, _, _, _, h⟩ := c.flushAndArm_written p results
  rw [h]

theorem writeLoop_sent (c : Conn) (results : List WriteResult) : c.sent <+: (c.writeLoop results).1.sent :=
  writeLoop_inv (P := fun c' => c.sent <+: c'.sent) (fun _ _ _ h => h.trans (List.prefix_append _ _)) List.prefix_rfl results

theorem flush_sent (c : Conn) (results : List WriteResult) : c.sent <+: (c.flush results).1.sent := by
  have hloop := c.writeLoop_sent results
  rw [flush]
  split
  · rw [compact]
    split
    · exact hloop
    · split <;> exact hloop
  · exact hloop

theorem flushAndArm_sent (c : Conn) (p : Poller) (results : List WriteResult) :
    c.sent <+: (c.flushAndArm p results).1.sent := by
  have hflush := c.flush_sent results
  rw [flushAndArm]
  dsimp only
  split
  · exact hflush
  · split <;> exact hflush

/-- What handing output to the kernel does to a connection. -/
structure Flushed (c c' : Conn) : Prop where
  written : c.Written c'
  sent : c.sent <+: c'.sent
  conserved : c.Conserved → c'.Conserved

theorem flush_flushed (c : Conn) (results : List WriteResult) : c.Flushed (c.flush results).1 :=
  ⟨c.flush_written results, c.flush_sent results, fun h => h.flush results⟩

theorem flushAndArm_flushed (c : Conn) (p : Poller) (results : List WriteResult) :
    c.Flushed (c.flushAndArm p results).1 :=
  ⟨c.flushAndArm_written p results, c.flushAndArm_sent p results, fun h => h.flushAndArm p results⟩

@[simp] theorem flushAndArm_rx (c : Conn) (p : Poller) (results : List WriteResult) :
    (c.flushAndArm p results).1.rx = c.rx := by
  obtain ⟨_, _, _, _, h⟩ := c.flushAndArm_written p results
  rw [h]

/-! ### Any sequence of appends and flushes -/

/-- What is done with the output of a connection. -/
inductive Call where
  /-- Bytes are put at the end of `tx`. -/
  | append (bytes : List UInt8)
  /-- `flush`, with what `::write` returns. -/
  | flush (results : List WriteResult)
deriving DecidableEq, Repr

/-- The bytes that a call appends. -/
def Call.bytes : Call → List UInt8
  | .append bytes => bytes
  | .flush _ => []

def call (c : Conn) : Call → Conn
  | .append bytes => c.append bytes
  | .flush results => (c.flush results).1

def run (c : Conn) (calls : List Call) : Conn := calls.foldl call c

/-- What the kernel took, followed by what is pending. -/
def stream (c : Conn) : List UInt8 := c.sent ++ c.tx.drop c.txOff

theorem Conserved.call {c : Conn} (h : c.Conserved) (a : Call) : (c.call a).Conserved := by
  cases a with
  | append bytes => exact h.append bytes
  | flush results => exact h.flush results

theorem call_appended (c : Conn) (a : Call) : (c.call a).appended.flatten = c.appended.flatten ++ a.bytes := by
  cases a with
  | append bytes =>
      change (c.appended ++ [bytes]).flatten = _
      rw [List.flatten_append, List.flatten_singleton]
      rfl
  | flush results =>
      change (c.flush results).1.appended.flatten = _
      rw [flush_appended]
      exact (List.append_nil _).symm

theorem Conserved.run {c : Conn} (h : c.Conserved) (calls : List Call) : (c.run calls).Conserved := by
  induction calls generalizing c with
  | nil => exact h
  | cons a calls ih => exact ih (h.call a)

theorem run_appended (c : Conn) (calls : List Call) :
    (c.run calls).appended.flatten = c.appended.flatten ++ calls.flatMap Call.bytes := by
  induction calls generalizing c with
  | nil => exact (List.append_nil _).symm
  | cons a calls ih =>
      change ((c.call a).run calls).appended.flatten = _
      rw [ih, call_appended, List.append_assoc, List.flatMap_cons]

/-- What is left in front of the pending bytes is bounded, and nothing is left when there are none. -/
theorem compact_spec {c : Conn} (h : c.txOff ≤ c.tx.length) :
    c.compact.txOff ≤ 2 ^ 16 ∧ (c.compact.tx = [] ∧ c.compact.txOff = 0 ↔ c.compact.pending = false) := by
  rw [compact]
  split
  · exact ⟨Nat.zero_le _, iff_of_true ⟨rfl, rfl⟩ rfl⟩
  · rename_i hne
    have hlt : c.txOff < c.tx.length := Nat.lt_of_le_of_ne h hne
    split
    · refine ⟨Nat.zero_le _, iff_of_false ?_ ?_⟩
      · rintro ⟨hnil, -⟩
        exact absurd (List.drop_eq_nil_iff.1 hnil) (Nat.not_le.2 hlt)
      · rw [pending, Bool.not_eq_false, decide_eq_true_eq, List.length_drop]
        exact Nat.sub_pos_of_lt hlt
    · rename_i hsmall
      refine ⟨Nat.not_lt.1 hsmall, iff_of_false ?_ ?_⟩
      · rintro ⟨hnil, -⟩
        rw [hnil] at hlt
        exact Nat.not_lt_zero _ hlt
      · rw [pending, Bool.not_eq_false, decide_eq_true_eq]
        exact hlt

/-- Whatever the kernel takes and refuses, at every moment between two calls of `::write`: what it took, followed by what is pending, is what was appended. A flush that succeeds leaves at most `2 ^ 16` bytes that were sent already, and none at all when nothing is pending. -/
theorem run_conserves (fd : Nat) (calls : List Call) :
    let c := run { fd := fd } calls
    c.stream = calls.flatMap Call.bytes ∧
      ∀ results, (c.writeLoop results).1.stream = calls.flatMap Call.bytes ∧
        ((c.flush results).2 = true → (c.flush results).1.txOff ≤ 65536 ∧
          ((c.flush results).1.tx = [] ∧ (c.flush results).1.txOff = 0 ↔ (c.flush results).1.pending = false)) := by
  intro c
  have hconserved : c.Conserved := Conserved.run ⟨rfl, Nat.le_refl 0⟩ calls
  have happended : c.appended.flatten = calls.flatMap Call.bytes := run_appended { fd := fd } calls
  refine ⟨hconserved.bytes.trans happended, fun results => ⟨?_, fun hok => ?_⟩⟩
  · obtain ⟨tx, off, sent, want, hwritten⟩ := c.writeLoop_written results
    have hbytes := (hconserved.writeLoop results).bytes
    have hsame : (c.writeLoop results).1.appended = c.appended := by rw [hwritten]
    rw [hsame, happended] at hbytes
    exact hbytes
  · have hloop : (c.writeLoop results).2 = true := by
      by_contra hfailed
      rw [flush, if_neg hfailed] at hok
      exact hfailed hok
    rw [flush, if_pos hloop]
    exact compact_spec (hconserved.writeLoop results).txOff_le

/-- Two frames; the first write is interrupted in the middle of the second. -/
theorem run_conserves_cut :
    let c := run { fd := 5 } [.append [1, 2, 3], .append [4, 5]]
    (c.flush [.intr, .wrote 4, .again]).2 = true ∧ (c.flush [.intr, .wrote 4, .again]).1.sent = [1, 2, 3, 4] ∧
      (c.flush [.intr, .wrote 4, .again]).1.txOff ≤ 65536 ∧
      (c.flush [.intr, .wrote 4, .again]).1.pending = true := by
  intro c
  have hok : (c.flush [.intr, .wrote 4, .again]).2 = true := rfl
  obtain ⟨hbound, -⟩ :=
    ((run_conserves 5 [.append [1, 2, 3], .append [4, 5]]).2 [.intr, .wrote 4, .again]).2 hok
  exact ⟨hok, rfl, hbound, rfl⟩

end Conn

end Matchbox
