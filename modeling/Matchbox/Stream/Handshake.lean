import Matchbox.Stream.Delivery

/-!
# The handshake, packet by packet

What a market-data client sends reaches `on_readable` in pieces that TCP chooses. A Subscribe is judged when its last byte is there, by everything received until then, and what follows it is judged when another sixteen bytes are there. `Stage` says what can have become of the subscriber once a byte string has arrived, however it was cut. The verdict depends on the cut for one kind of client only: one whose Subscribe is followed by one to fifteen bytes.
-/

namespace Matchbox

open Wire

/-! ### Cuts of a byte string -/

/-- The read loop of `on_readable` meets neither the end of the file nor an error. -/
def ReadResult.ongoing : List ReadResult → Bool
  | [] => true
  | .bytes chunk :: reads => chunk.take 256 ≠ [] ∧ ongoing reads
  | .intr :: reads => ongoing reads
  | .again :: _ => true
  | .error :: _ => false

/-- These calls of `on_readable` deliver the byte string, without its end. -/
structure Cuts (calls : List (List ReadResult)) (bytes : List UInt8) : Prop where
  ongoing : ∀ reads ∈ calls, ReadResult.ongoing reads = true
  bytes : (calls.map received).flatten = bytes

theorem received_bytes {chunk : List UInt8} (h : chunk.length ≤ 256) : received [.bytes chunk] = chunk := by
  rw [received, List.take_of_length_le h]
  split
  · rename_i hempty
    exact hempty.symm
  · exact List.append_nil chunk

theorem ongoing_bytes {chunk : List UInt8} (hpos : 0 < chunk.length) : ReadResult.ongoing [.bytes chunk] = true := by
  simp [ReadResult.ongoing, List.length_pos_iff.1 hpos]

theorem Cuts.chunks (chunks : List (List UInt8)) (h : ∀ chunk ∈ chunks, 0 < chunk.length ∧ chunk.length ≤ 256) :
    Cuts (chunks.map fun chunk => [.bytes chunk]) chunks.flatten where
  ongoing := by
    intro reads hreads
    obtain ⟨chunk, hchunk, rfl⟩ := List.mem_map.1 hreads
    exact ongoing_bytes (h chunk hchunk).1
  bytes := by
    rw [List.map_map]
    congr 1
    calc chunks.map (received ∘ fun chunk => [.bytes chunk])
      _ = chunks.map id := List.map_congr_left fun chunk hchunk => received_bytes (h chunk hchunk).2
      _ = chunks := List.map_id chunks

/-- The byte string begins with the header of a Subscribe. -/
def IsSubscribe (bytes : List UInt8) : Prop :=
  (Header.ofBytes bytes).version = kVersion ∧ (Header.ofBytes bytes).len = MsgType.subscribe.size ∧
    MsgType.ofCode (Header.ofBytes bytes).type = some .subscribe

instance (bytes : List UInt8) : Decidable (IsSubscribe bytes) := inferInstanceAs (Decidable (_ ∧ _))

theorem IsSubscribe.append_iff {front : List UInt8} (back : List UInt8) (h : MsgType.subscribe.size ≤ front.length) :
    IsSubscribe (front ++ back) ↔ IsSubscribe front := by
  have hsize := MsgType.subscribe.headerSize_lt
  rw [IsSubscribe, IsSubscribe, Header.ofBytes_append back (by omega)]

/-! ### One call -/

namespace Subscriber

variable {ring : ReplayRing} {reads : List ReadResult} {s : Subscriber}

theorem readLoop_ongoing (s : Subscriber) (reads : List ReadResult) :
    (s.readLoop reads).2 = ReadResult.ongoing reads := by
  induction reads generalizing s with
  | nil => rfl
  | cons r reads ih =>
      cases r with
      | bytes chunk =>
          rw [readLoop, ReadResult.ongoing]
          by_cases hend : chunk.take 256 = []
          · simp [hend]
          · simp [hend, ih]
      | again => rfl
      | intr => exact ih s
      | error => rfl

/-- The subscriber after a call of `on_readable`, if it is kept. -/
def next (ring : ReplayRing) (reads : List ReadResult) (s : Subscriber) : Option Subscriber :=
  if (s.afterReadable ring reads).2 then some (s.afterReadable ring reads).1 else none

/-- The subscriber after several, if all keep it. -/
def nextAll (ring : ReplayRing) (calls : List (List ReadResult)) (o : Option Subscriber) : Option Subscriber :=
  calls.foldl (fun o reads => o.bind fun s => s.next ring reads) o

theorem accepts_iff (s : Subscriber) :
    s.accepts = true ↔ s.subscribed = false ∧ IsSubscribe s.rx ∧ s.rx.length ≤ MsgType.subscribe.size := by
  simp only [accepts, IsSubscribe, decide_eq_true_eq]
  tauto

theorem readLoop_of_ongoing (hongoing : ReadResult.ongoing reads = true) {rx : List UInt8}
    (hrx : s.rx ++ received reads = rx) : s.readLoop reads = ({ s with rx := rx }, true) := by
  apply Prod.ext
  · rw [s.readLoop_received, hrx]
  · rw [s.readLoop_ongoing, hongoing]

theorem next_of_ongoing (hongoing : ReadResult.ongoing reads = true) {rx : List UInt8}
    (hrx : s.rx ++ received reads = rx) :
    s.next ring reads =
      if rx.length < MsgType.subscribe.size then some { s with rx := rx }
      else if accepts { s with rx := rx } then some (start { s with rx := rx } ring)
      else none := by
  rw [next, afterReadable, readLoop_of_ongoing hongoing hrx]
  simp only [Bool.true_eq_false, reduceIte]
  by_cases hshort : rx.length < MsgType.subscribe.size
  · simp only [if_pos hshort, reduceIte]
  · simp only [if_neg hshort]
    cases accepts { s with rx := rx } <;> rfl

theorem start_rx (s : Subscriber) (ring : ReplayRing) :
    { s.start ring with rx := [] } = s.start ring ∧ (s.start ring).subscribed = true := by
  rw [start]
  dsimp only
  split
  · split <;> exact ⟨rfl, rfl⟩
  · exact ⟨rfl, rfl⟩

end Subscriber

/-! ### Whatever the cut -/

/-- What has become of a fresh subscriber when these bytes have arrived. -/
inductive Stage (ring : ReplayRing) (fd : Nat) (bytes : List UInt8) : Option Subscriber → Prop
  | waiting (hshort : bytes.length < MsgType.subscribe.size) : Stage ring fd bytes (some { fd := fd, rx := bytes })
  /-- The Subscribe came by itself, and less than a frame after it. -/
  | started (hheader : IsSubscribe bytes) (hlong : MsgType.subscribe.size ≤ bytes.length)
      (hshort : bytes.length < 2 * MsgType.subscribe.size) :
      Stage ring fd bytes (some { Subscriber.start { fd := fd, rx := bytes.take MsgType.subscribe.size } ring with
        rx := bytes.drop MsgType.subscribe.size })
  | dropped (hlong : MsgType.subscribe.size ≤ bytes.length)
      (hbad : ¬ IsSubscribe bytes ∨ MsgType.subscribe.size < bytes.length) : Stage ring fd bytes none

section Stages

variable {ring : ReplayRing} {fd : Nat} {bytes : List UInt8} {o : Option Subscriber}

/-- One call keeps to the stages. -/
theorem Stage.next (h : Stage ring fd bytes o) {reads : List ReadResult} (hongoing : ReadResult.ongoing reads = true) :
    Stage ring fd (bytes ++ received reads) (o.bind fun s => s.next ring reads) := by
  have hlength : (bytes ++ received reads).length = bytes.length + (received reads).length := List.length_append
  cases h with
  | waiting hshort =>
      rw [Option.bind_some, Subscriber.next_of_ongoing hongoing rfl]
      by_cases hshort' : (bytes ++ received reads).length < MsgType.subscribe.size
      · rw [if_pos hshort']
        exact .waiting hshort'
      · rw [if_neg hshort']
        split
        · rename_i haccepts
          obtain ⟨-, hheader, hle⟩ := (Subscriber.accepts_iff _).1 haccepts
          have hsize : (bytes ++ received reads).length = MsgType.subscribe.size := by
            dsimp only at hle
            omega
          have hstage : Stage ring fd (bytes ++ received reads) _ := .started hheader hsize.ge (by rw [hsize]; decide)
          rw [List.take_of_length_le hsize.le, List.drop_of_length_le hsize.le, (Subscriber.start_rx _ ring).1] at hstage
          exact hstage
        · rename_i haccepts
          apply Stage.dropped (Nat.not_lt.1 hshort')
          by_contra hcon
          obtain ⟨hheader, hle⟩ := not_or.1 hcon
          exact haccepts ((Subscriber.accepts_iff _).2 ⟨rfl, not_not.1 hheader, Nat.not_lt.1 hle⟩)
  | started hheader hlong hshort =>
      have htake : (bytes ++ received reads).take _ = _ := List.take_append_of_le_length hlong
      have hdrop : (bytes ++ received reads).drop _ = _ := List.drop_append_of_le_length hlong
      rw [Option.bind_some, Subscriber.next_of_ongoing hongoing hdrop.symm, List.length_drop, hlength]
      split
      · rename_i hshort'
        rw [← htake]
        exact .started ((IsSubscribe.append_iff _ hlong).2 hheader) (by omega) (by omega)
      · rename_i hlong'
        rw [if_neg]
        · exact .dropped (by omega) (.inr (by omega))
        · intro haccepts
          have hsub := ((Subscriber.accepts_iff _).1 haccepts).1
          rw [(Subscriber.start_rx _ ring).2] at hsub
          cases hsub
  | dropped hlong hbad =>
      apply Stage.dropped (by omega)
      rcases hbad with hheader | hlt
      · exact .inl fun hcon => hheader ((IsSubscribe.append_iff _ hlong).1 hcon)
      · exact .inr (by omega)

theorem Stage.nextAll (h : Stage ring fd bytes o) {calls : List (List ReadResult)} {more : List UInt8}
    (hcuts : Cuts calls more) : Stage ring fd (bytes ++ more) (Subscriber.nextAll ring calls o) := by
  induction calls generalizing bytes o more with
  | nil =>
      rw [← hcuts.bytes, List.map_nil, List.flatten_nil, List.append_nil]
      exact h
  | cons reads calls ih =>
      rw [← hcuts.bytes, List.map_cons, List.flatten_cons, ← List.append_assoc]
      apply ih (h.next (hcuts.ongoing reads List.mem_cons_self))
      exact ⟨fun reads hreads => hcuts.ongoing reads (List.mem_cons_of_mem _ hreads), rfl⟩

/-- The verdict: whether the subscriber is kept, and with which flag and cursor. -/
def Subscriber.verdict (o : Option Subscriber) : Option (Bool × Nat) := o.map fun s => (s.subscribed, s.nextSeq)

/-- Outside of one kind of byte string the stage is determined, and with it the verdict. -/
theorem Stage.unique {o' : Option Subscriber} (h : Stage ring fd bytes o) (h' : Stage ring fd bytes o')
    (hexact : ¬ (IsSubscribe bytes ∧ MsgType.subscribe.size < bytes.length ∧
      bytes.length < 2 * MsgType.subscribe.size)) : o = o' := by
  cases h with
  | waiting hshort =>
      cases h' with
      | waiting _ => rfl
      | started _ hlong _ => omega
      | dropped hlong _ => omega
  | started hheader hlong hshort =>
      cases h' with
      | waiting hshort' => omega
      | started _ _ _ => rfl
      | dropped _ hbad => exact absurd ⟨hheader, by tauto, hshort⟩ hexact
  | dropped hlong hbad =>
      cases h' with
      | waiting hshort' => omega
      | started hheader _ hshort => exact absurd ⟨hheader, by tauto, hshort⟩ hexact
      | dropped _ _ => rfl

/-- A client that sends a Subscribe and a few bytes more in one piece is dropped. -/
theorem Subscriber.nextAll_whole (ring : ReplayRing) (fd : Nat) (hlong : MsgType.subscribe.size < bytes.length)
    (hshort : bytes.length ≤ 256) : nextAll ring [[.bytes bytes]] (some { fd := fd }) = none := by
  change next ring [.bytes bytes] { fd := fd } = none
  have hrx : [] ++ received [.bytes bytes] = bytes := received_bytes hshort
  rw [next_of_ongoing (ongoing_bytes (by omega)) hrx, if_neg (by omega), if_neg]
  intro haccepts
  exact absurd ((accepts_iff _).1 haccepts).2.2 (Nat.not_le.2 hlong)

/-- The same client is kept when the Subscribe arrives by itself. -/
theorem Subscriber.nextAll_halves (ring : ReplayRing) (fd : Nat) (hheader : IsSubscribe bytes)
    (hlong : MsgType.subscribe.size < bytes.length) (hshort : bytes.length < 2 * MsgType.subscribe.size) :
    nextAll ring [[.bytes (bytes.take MsgType.subscribe.size)], [.bytes (bytes.drop MsgType.subscribe.size)]]
      (some { fd := fd }) = some { start { fd := fd, rx := bytes.take MsgType.subscribe.size } ring with
        rx := bytes.drop MsgType.subscribe.size } := by
  have hsize : MsgType.subscribe.size = 16 := rfl
  have htake : (bytes.take MsgType.subscribe.size).length = MsgType.subscribe.size := List.length_take_of_le hlong.le
  have hdrop : (bytes.drop MsgType.subscribe.size).length = bytes.length - MsgType.subscribe.size := List.length_drop
  have hheader' : IsSubscribe (bytes.take MsgType.subscribe.size) := by
    rw [← IsSubscribe.append_iff (bytes.drop MsgType.subscribe.size) htake.ge, List.take_append_drop]
    exact hheader
  have hfirst : next ring [.bytes (bytes.take MsgType.subscribe.size)] { fd := fd } =
      some (start { fd := fd, rx := bytes.take MsgType.subscribe.size } ring) := by
    have hrx : [] ++ received [.bytes (bytes.take MsgType.subscribe.size)] = _ := received_bytes (by omega)
    rw [next_of_ongoing (ongoing_bytes (by omega)) hrx, if_neg (by omega), if_pos]
    exact (accepts_iff _).2 ⟨rfl, hheader', htake.le⟩
  have hempty : (start { fd := fd, rx := bytes.take MsgType.subscribe.size } ring).rx = [] := by
    rw [← (start_rx _ ring).1]
  have hrx : (start { fd := fd, rx := bytes.take MsgType.subscribe.size } ring).rx ++
      received [.bytes (bytes.drop MsgType.subscribe.size)] = bytes.drop MsgType.subscribe.size := by
    rw [hempty, List.nil_append]
    exact received_bytes (by omega)
  change (next ring [.bytes (bytes.take MsgType.subscribe.size)] { fd := fd }).bind _ = _
  rw [hfirst, Option.bind_some, next_of_ongoing (ongoing_bytes (by omega)) hrx, if_pos (by omega)]

end Stages

/-! ### The publisher -/

namespace Publisher

/-- These calls of `on_readable` for one descriptor. -/
def readAll (r : Publisher × Poller) (fd : Nat) (calls : List (List ReadResult)) : Publisher × Poller :=
  (calls.map (Action.onReadable fd)).foldl step r

theorem find_onReadable {r : Publisher × Poller} (h : r.1.Distinct) (fd : Nat) (reads : List ReadResult) :
    (step r (.onReadable fd reads)).1.find fd = (r.1.find fd).bind fun s => s.next r.1.ring reads := by
  have hdistinct := h.step (.onReadable fd reads)
  cases hfind : r.1.find fd with
  | none =>
      rw [Option.bind_none, step, onReadable, hfind]
      exact hfind
  | some s =>
      have hmem := List.mem_of_find?_eq_some hfind
      have hfd : s.fd = fd := by simpa using List.find?_some hfind
      have hafter : s.after r.1 (.onReadable fd reads) = s.afterReadable r.1.ring reads := if_pos hfd
      rw [Option.bind_some, Subscriber.next]
      split
      · rename_i hkept
        rw [← hafter] at hkept ⊢
        have hfind' := find_of_mem hdistinct (mem_subs_of_kept h _ hmem hkept)
        rwa [Subscriber.after_fd, hfd] at hfind'
      · rename_i hdropped
        apply List.find?_eq_none.2
        intro s' hs' heq
        rw [(step_lists h _).subs] at hs'
        obtain ⟨t, ht, hkept⟩ := mem_kept.1 (List.append_nil (kept _ _) ▸ hs')
        have htfd : t.fd = fd := by
          rw [← t.after_fd r.1 (.onReadable fd reads), hkept]
          simpa using heq
        rw [h.eq_of_find hfind ht htfd, hafter] at hkept
        exact hdropped (by rw [hkept])

theorem find_readAll {r : Publisher × Poller} (h : r.1.Distinct) (fd : Nat) (calls : List (List ReadResult)) :
    (readAll r fd calls).1.find fd = Subscriber.nextAll r.1.ring calls (r.1.find fd) := by
  induction calls generalizing r with
  | nil => rfl
  | cons reads calls ih =>
      have hring : (step r (.onReadable fd reads)).1.ring = r.1.ring := (r.1.onReadable_same r.2 fd reads).ring
      have hrest := ih (h.step (.onReadable fd reads))
      rw [hring, find_onReadable h] at hrest
      exact hrest

theorem find_subscribe {p : Publisher} {fd : Nat} (hfd : p.isSubscriber fd = false) (poller : Poller) :
    (p.subscribe poller fd).1.find fd = some { fd := fd } := by
  have hnone : p.subs.find? (fun s => s.fd == fd) = none := by
    apply List.find?_eq_none.2
    intro s hs heq
    rw [isSubscriber, List.any_eq_false] at hfd
    exact hfd s hs heq
  rw [subscribe, if_neg (by rw [hfd]; decide), find, List.find?_append, hnone]
  simp

/-- The verdict on a client depends on the cut exactly when its Subscribe is followed by less than another frame. -/
theorem readAll_agree_iff (cfg : Config) (actions : List Action) (fd : Nat)
    (hfd : (run cfg actions).1.isSubscriber fd = false) (bytes : List UInt8) :
    let r := run cfg (actions ++ [.subscribe fd])
    (∀ calls calls', Cuts calls bytes → Cuts calls' bytes →
      Subscriber.verdict ((readAll r fd calls).1.find fd) = Subscriber.verdict ((readAll r fd calls').1.find fd)) ↔
    ¬ (IsSubscribe bytes ∧ 16 < bytes.length ∧ bytes.length < 32) := by
  intro r
  have hdistinct : r.1.Distinct := run_distinct cfg _
  have hfind : r.1.find fd = some { fd := fd } := by
    rw [show r = step (run cfg actions) (.subscribe fd) from run_concat cfg actions _]
    exact find_subscribe hfd _
  simp only [find_readAll hdistinct, hfind]
  constructor
  · intro hagree hcut
    obtain ⟨hheader, hlong, hshort⟩ := hcut
    have hsize : MsgType.subscribe.size = 16 := rfl
    have hwhole := Cuts.chunks [bytes] (by simp; omega)
    have hhalves := Cuts.chunks [bytes.take MsgType.subscribe.size, bytes.drop MsgType.subscribe.size]
      (by simp [hsize]; omega)
    rw [List.flatten_cons, List.flatten_nil, List.append_nil] at hwhole
    rw [List.flatten_cons, List.flatten_cons, List.flatten_nil, List.append_nil, List.take_append_drop] at hhalves
    have heq := hagree _ _ hwhole hhalves
    rw [List.map_cons, List.map_nil, Subscriber.nextAll_whole r.1.ring fd hlong (by omega), List.map_cons, List.map_cons,
      List.map_nil, Subscriber.nextAll_halves r.1.ring fd hheader hlong hshort] at heq
    cases heq
  · intro hexact calls calls' hcalls hcalls'
    have hstage : Stage r.1.ring fd [] (some { fd := fd }) := .waiting (by decide)
    rw [(hstage.nextAll hcalls).unique (hstage.nextAll hcalls') hexact]

/-- The verdict on a Subscribe by itself does not depend on the cut. -/
theorem readAll_agree_exact :
    let bytes : List UInt8 := [16, 0, 4, 1, 0, 0, 0, 0, 1, 0, 0, 0, 0, 0, 0, 0]
    let r := run {} [.subscribe 5]
    (run {} []).1.isSubscriber 5 = false ∧ ∀ calls calls', Cuts calls bytes → Cuts calls' bytes →
      Subscriber.verdict ((readAll r 5 calls).1.find 5) = Subscriber.verdict ((readAll r 5 calls').1.find 5) := by
  intro bytes r
  refine ⟨by decide, ?_⟩
  exact (readAll_agree_iff {} [] 5 (by decide) bytes).2 (by decide +kernel)

/-- A client that asks for the first frame and sends one byte more: dropped when all of it comes at once, streamed to when the Subscribe comes first. -/
theorem readAll_one_byte_more :
    let bytes : List UInt8 := [16, 0, 4, 1, 0, 0, 0, 0, 1, 0, 0, 0, 0, 0, 0, 0] ++ [0]
    let r := run {} [.subscribe 5]
    Cuts [[.bytes bytes]] bytes ∧ Cuts [[.bytes (bytes.take 16)], [.bytes (bytes.drop 16)]] bytes ∧
      (readAll r 5 [[.bytes bytes]]).1.find 5 = none ∧
      Subscriber.verdict ((readAll r 5 [[.bytes (bytes.take 16)], [.bytes (bytes.drop 16)]]).1.find 5) = some (true, 1) := by
  intro bytes r
  refine ⟨⟨?_, ?_⟩, ⟨?_, ?_⟩, ?_, ?_⟩
  all_goals decide +kernel

end Publisher

end Matchbox
