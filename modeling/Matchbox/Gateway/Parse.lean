import Matchbox.Gateway.Session
import Matchbox.Lib.Resumable
import Matchbox.Wire.Meaning

/-!
# What `parse_frames` makes of a byte stream

`nextFrame` is the loop body as a resumable parser: it looks at the unconsumed bytes only, and its state is the expected sequence number. Its decisions are stable under more bytes, so the general rules for resumable parsers apply; `parseLoop_eq` says that the loop over offsets computes exactly its parse, with enough fuel and without reading outside the buffer.
-/

namespace Matchbox

open Wire LittleEndian Resumable

namespace Wire

/-- The reply to a complete frame, field by field from its bytes. -/
def frameReply (session : Nat) (frame : List UInt8) : Reply :=
  match MsgType.ofCode (Header.ofBytes frame).type with
  | some .newOrder => (NewOrder.ofBytes frame).reply session
  | some .cancelOrder => (CancelOrder.ofBytes frame).reply session
  | some .replaceOrder => (ReplaceOrder.ofBytes frame).reply session
  | _ => .reject 0 .badMessage

/-- One iteration of the loop on the unconsumed bytes. -/
def nextFrame (session seq : Nat) (bytes : List UInt8) : Next Nat Reply :=
  if bytes.length < headerSize then .more
  else
    let h := Header.ofBytes bytes
    if h.ok = false then .stop none
    else if bytes.length < h.len then .more
    else if h.seq ≠ seq then .stop (some (.reject 0 .badSeq))
    else .item ((seq + 1) % word32) (frameReply session (bytes.take h.len)) h.len

/-- A header that passes has the length of a known message, so at least the header itself. -/
theorem Header.headerSize_lt {h : Header} (hok : h.ok = true) : headerSize < h.len := by
  simp only [Header.ok, decide_eq_true_eq] at hok
  obtain ⟨-, hpos, hlen⟩ := hok
  rw [sizeFor] at hlen
  cases htype : MsgType.ofCode h.type with
  | none => simp only [htype] at hlen; exact absurd hlen hpos
  | some t => simp only [htype] at hlen; rw [hlen]; exact t.headerSize_lt

/-! ### The cases of one iteration -/

/-- Everything one iteration can find, and what it decides then. -/
inductive Looked (session seq : Nat) (bytes : List UInt8) : Next Nat Reply → Prop
  | short (h : bytes.length < headerSize) : Looked session seq bytes .more
  | malformed (h : headerSize ≤ bytes.length) (hok : (Header.ofBytes bytes).ok = false) :
      Looked session seq bytes (.stop none)
  | waiting (h : headerSize ≤ bytes.length) (hok : (Header.ofBytes bytes).ok = true)
      (hlen : bytes.length < (Header.ofBytes bytes).len) : Looked session seq bytes .more
  | wrongSeq (h : headerSize ≤ bytes.length) (hok : (Header.ofBytes bytes).ok = true)
      (hlen : (Header.ofBytes bytes).len ≤ bytes.length) (hseq : (Header.ofBytes bytes).seq ≠ seq) :
      Looked session seq bytes (.stop (some (.reject 0 .badSeq)))
  | item (h : headerSize ≤ bytes.length) (hok : (Header.ofBytes bytes).ok = true)
      (hlen : (Header.ofBytes bytes).len ≤ bytes.length) (hseq : (Header.ofBytes bytes).seq = seq) :
      Looked session seq bytes (.item ((seq + 1) % word32)
        (frameReply session (bytes.take (Header.ofBytes bytes).len)) (Header.ofBytes bytes).len)

variable {session seq : Nat} {bytes : List UInt8}

theorem nextFrame_looked (session seq : Nat) (bytes : List UInt8) :
    Looked session seq bytes (nextFrame session seq bytes) := by
  rw [nextFrame]
  dsimp only
  split
  · exact .short ‹_›
  · rename_i h
    rw [Nat.not_lt] at h
    split
    · exact .malformed h ‹_›
    · rename_i hok
      rw [Bool.not_eq_false] at hok
      split
      · exact .waiting h hok ‹_›
      · rename_i hlen
        rw [Nat.not_lt] at hlen
        split
        · exact .wrongSeq h hok hlen ‹_›
        · exact .item h hok hlen (not_not.1 ‹_›)

theorem Looked.eq {next : Next Nat Reply} (h : Looked session seq bytes next) :
    nextFrame session seq bytes = next := by
  rw [nextFrame]
  cases h with
  | short h => rw [if_pos h]
  | malformed h hok => rw [if_neg (by omega), if_pos hok]
  | waiting h hok hlen => rw [if_neg (by omega), if_neg (by simp [hok]), if_pos hlen]
  | wrongSeq h hok hlen hseq => rw [if_neg (by omega), if_neg (by simp [hok]), if_neg (by omega), if_pos hseq]
  | item h hok hlen hseq =>
      rw [if_neg (by omega), if_neg (by simp [hok]), if_neg (by omega), if_neg (by simp [hseq])]

/-- A header that is there is judged the same when more bytes follow, and so is a frame. -/
theorem nextFrame_stable (session : Nat) : Stable (nextFrame session) where
  item := by
    intro seq bytes seq' out n hitem
    have hlooked := nextFrame_looked session seq bytes
    rw [hitem] at hlooked
    cases hlooked with
    | item h hok hlen hseq =>
        refine ⟨(Nat.zero_le _).trans_lt (Header.headerSize_lt hok), hlen, fun back => ?_⟩
        have hsame := Header.ofBytes_append back h
        have hlonger : bytes.length ≤ (bytes ++ back).length := by
          rw [List.length_append]
          omega
        have happend : Looked session (Header.ofBytes bytes).seq (bytes ++ back) _ :=
          .item (h.trans hlonger) (by rw [hsame]; exact hok) (by rw [hsame]; exact hlen.trans hlonger) (by rw [hsame])
        rw [hsame, List.take_append_of_le_length hlen] at happend
        rw [← hseq]
        exact happend.eq
  stop := by
    intro seq bytes out hstop back
    have hlonger : bytes.length ≤ (bytes ++ back).length := by
      rw [List.length_append]
      omega
    have hlooked := nextFrame_looked session seq bytes
    rw [hstop] at hlooked
    cases hlooked with
    | malformed h hok =>
        have hsame := Header.ofBytes_append back h
        exact Looked.eq (.malformed (h.trans hlonger) (by rw [hsame]; exact hok))
    | wrongSeq h hok hlen hseq =>
        have hsame := Header.ofBytes_append back h
        exact Looked.eq (.wrongSeq (h.trans hlonger) (by rw [hsame]; exact hok)
          (by rw [hsame]; exact hlen.trans hlonger) (by rw [hsame]; exact hseq))

/-! ### Reads at an offset -/

section Reads

variable {rx : List UInt8} {off : Nat}

theorem readReply_eq (h : off ≤ rx.length) (hok : (Header.ofBytes (rx.drop off)).ok = true)
    (hlen : (Header.ofBytes (rx.drop off)).len ≤ (rx.drop off).length) :
    readReply session (Header.ofBytes (rx.drop off)).type rx off =
      some (frameReply session ((rx.drop off).take (Header.ofBytes (rx.drop off)).len)) := by
  have hlt := Header.headerSize_lt hok
  rw [readReply, frameReply, Header.ofBytes_take hlt.le hlen]
  simp only [Header.ok, decide_eq_true_eq] at hok
  have hsize := hok.2.2
  rw [sizeFor] at hsize
  cases htype : MsgType.ofCode (Header.ofBytes (rx.drop off)).type with
  | none => rfl
  | some t =>
      simp only [htype] at hsize
      rw [hsize] at hlen ⊢
      cases t <;> first | rfl | rw [bytesAt_eq h hlen]; rfl

end Reads

end Wire

def Reply.command? : Reply → Option Command
  | .submit c => some c
  | .reject _ _ => none

def Reply.message? : Reply → Option Message
  | .submit _ => none
  | .reject tag reason => some (.reject tag reason)

namespace Session

variable {session seq seq' : Nat} {bytes rest : List UInt8} {outs : List Reply} {alive : Bool}

/-- Act on a list of replies. -/
def react (s : Session) : List Reply → Session
  | [] => s
  | reply :: replies => (s.act reply).1.react replies

theorem act_commands (s : Session) (reply : Reply) : (s.act reply).2 = reply.command?.toList := by
  cases reply <;> rfl

@[simp] theorem act_id (s : Session) (reply : Reply) : (s.act reply).1.id = s.id := by
  cases reply <;> rfl

@[simp] theorem act_rx (s : Session) (reply : Reply) : (s.act reply).1.rx = s.rx := by
  cases reply <;> rfl

@[simp] theorem act_expectSeq (s : Session) (reply : Reply) : (s.act reply).1.expectSeq = s.expectSeq := by
  cases reply <;> rfl

@[simp] theorem react_id (s : Session) (replies : List Reply) : (s.react replies).id = s.id := by
  induction replies generalizing s with
  | nil => rfl
  | cons reply replies ih => rw [react, ih, act_id]

theorem react_append (s : Session) (replies replies' : List Reply) :
    s.react (replies ++ replies') = (s.react replies).react replies' := by
  induction replies generalizing s with
  | nil => rfl
  | cons reply replies ih => rw [List.cons_append, react, react, ih]

/-- The session at another place of its stream. -/
def moved (s : Session) (seq : Nat) (rx : List UInt8) : Session := { s with expectSeq := seq, rx := rx }

theorem act_moved (s : Session) (reply : Reply) (seq : Nat) (rx : List UInt8) :
    ((s.moved seq rx).act reply).1 = (s.act reply).1.moved seq rx := by
  cases reply <;> rfl

theorem react_moved (s : Session) (replies : List Reply) (seq : Nat) (rx : List UInt8) :
    (s.moved seq rx).react replies = (s.react replies).moved seq rx := by
  induction replies generalizing s with
  | nil => rfl
  | cons reply replies ih => rw [react, react, act_moved, ih]

/-- The session when `parse_frames` returns. -/
def parsed (s : Session) (replies : List Reply) (seq : Nat) (rx : List UInt8) : Session :=
  (s.react replies).moved seq rx

theorem parsed_moved (s : Session) (replies : List Reply) (seq seq' : Nat) (rx rx' : List UInt8) :
    (s.moved seq rx).parsed replies seq' rx' = s.parsed replies seq' rx' := by
  rw [parsed, react_moved]
  rfl

theorem parsed_parsed (s : Session) (replies replies' : List Reply) (seq seq' : Nat) (rx rx' : List UInt8) :
    (s.parsed replies seq rx).parsed replies' seq' rx' = s.parsed (replies ++ replies') seq' rx' := by
  change ((s.react replies).moved seq rx).parsed replies' seq' rx' = _
  rw [parsed_moved, parsed, parsed, react_append]

@[simp] theorem parsed_id (s : Session) (replies : List Reply) (seq : Nat) (rx : List UInt8) :
    (s.parsed replies seq rx).id = s.id :=
  s.react_id replies

theorem parsed_receive (s : Session) (bytes : List UInt8) (replies : List Reply) (seq : Nat) (rx : List UInt8) :
    (s.receive bytes).parsed replies seq rx = s.parsed replies seq rx :=
  s.parsed_moved replies s.expectSeq seq (s.rx ++ bytes) rx

/-- One iteration of the loop is what `nextFrame` says of the unconsumed bytes. -/
theorem parseLoop_succ (fuel : Nat) (s : Session) (off : Nat) (hoff : off ≤ s.rx.length) :
    parseLoop (fuel + 1) s off =
      match nextFrame s.id s.expectSeq (s.rx.drop off) with
      | .more => some ⟨s.consume off, [], true⟩
      | .stop reply => some ⟨s.react reply.toList, [], false⟩
      | .item seq reply n =>
          (parseLoop fuel ((s.moved seq s.rx).act reply).1 (off + n)).map fun rest =>
            { rest with commands := reply.command?.toList ++ rest.commands } := by
  have hremaining := remaining_eq hoff
  have hlooked := nextFrame_looked s.id s.expectSeq (s.rx.drop off)
  generalize nextFrame s.id s.expectSeq (s.rx.drop off) = next at hlooked
  rw [parseLoop, hremaining, Option.bind_eq_bind, Option.bind_some]
  cases hlooked with
  | short h => rw [if_pos h]; rfl
  | malformed h hok =>
      rw [if_neg (by omega), readHeader_eq hoff h, Option.bind_eq_bind, Option.bind_some, if_pos hok]
      rfl
  | waiting h hok hlen =>
      rw [if_neg (by omega), readHeader_eq hoff h, Option.bind_eq_bind, Option.bind_some, if_neg (by simp [hok]),
        if_pos hlen]
      rfl
  | wrongSeq h hok hlen hseq =>
      rw [if_neg (by omega), readHeader_eq hoff h, Option.bind_eq_bind, Option.bind_some, if_neg (by simp [hok]),
        if_neg (by omega), if_pos hseq]
      rfl
  | item h hok hlen hseq =>
      rw [if_neg (by omega), readHeader_eq hoff h, Option.bind_eq_bind, Option.bind_some, if_neg (by simp [hok]),
        if_neg (by omega), if_neg (by simp [hseq])]
      dsimp only
      rw [readReply_eq hoff hok hlen, Option.bind_eq_bind, Option.bind_some, Option.map_eq_bind, act_commands]
      rfl

/-- With enough fuel the loop computes the parse of the unconsumed bytes. -/
theorem parseLoop_eq (h : Parse (nextFrame session) seq bytes outs seq' rest alive) (fuel : Nat) (s : Session)
    (off : Nat) (hid : s.id = session) (hseq : s.expectSeq = seq) (hoff : off ≤ s.rx.length)
    (hbytes : s.rx.drop off = bytes) (hfuel : bytes.length < fuel) :
    parseLoop fuel s off =
      some ⟨s.parsed outs seq' (if alive then rest else s.rx), outs.filterMap Reply.command?, alive⟩ := by
  induction h generalizing fuel s off with
  | more hnext =>
      obtain ⟨fuel, rfl⟩ := Nat.exists_eq_add_one_of_ne_zero (Nat.ne_zero_of_lt hfuel)
      subst hid hseq hbytes
      rw [parseLoop_succ fuel s off hoff, hnext]
      rfl
  | stop hnext =>
      obtain ⟨fuel, rfl⟩ := Nat.exists_eq_add_one_of_ne_zero (Nat.ne_zero_of_lt hfuel)
      subst hid hseq hbytes
      rw [parseLoop_succ fuel s off hoff, hnext]
      have hlooked := nextFrame_looked s.id s.expectSeq (s.rx.drop off)
      rw [hnext] at hlooked
      cases hlooked <;> rfl
  | @item _ _ _ _ _ reply _ _ _ hnext hrest ih =>
      obtain ⟨fuel, rfl⟩ := Nat.exists_eq_add_one_of_ne_zero (Nat.ne_zero_of_lt hfuel)
      obtain ⟨hpos, hle, -⟩ := (nextFrame_stable session).item hnext
      subst hid hseq hbytes
      rw [List.length_drop] at hle
      rw [parseLoop_succ fuel s off hoff, hnext]
      dsimp only
      rw [ih fuel _ _ (by simp [moved]) (by simp [moved]) (by simp [moved]; omega) (by simp [moved, List.drop_drop])
          (by simp at hfuel ⊢; omega),
        Option.map_some, act_rx, act_moved, parsed_moved]
      cases reply <;> rfl

theorem parseFrames_eq {s : Session} (h : Parse (nextFrame s.id) s.expectSeq s.rx outs seq' rest alive) :
    s.parseFrames =
      some ⟨s.parsed outs seq' (if alive then rest else s.rx), outs.filterMap Reply.command?, alive⟩ :=
  parseLoop_eq h _ s 0 rfl rfl (Nat.zero_le _) rfl (Nat.lt_succ_self _)

theorem parseFrames_isSome (s : Session) : s.parseFrames.isSome := by
  obtain ⟨outs, seq', rest, alive, h⟩ := (nextFrame_stable s.id).exists_parse s.expectSeq s.rx
  rw [parseFrames_eq h]
  rfl

theorem parseChunks_eq (chunks : List (List UInt8)) (s : Session) (hmore : nextFrame s.id s.expectSeq s.rx = .more) :
    ∃ outs seq' rest alive rx,
      Parse (nextFrame s.id) s.expectSeq (s.rx ++ chunks.flatten) outs seq' rest alive ∧
        s.parseChunks chunks = some ⟨s.parsed outs seq' rx, outs.filterMap Reply.command?, alive⟩ ∧
        (alive = true → rx = rest) := by
  induction chunks generalizing s with
  | nil =>
      refine ⟨[], s.expectSeq, s.rx, true, s.rx, ?_, rfl, fun _ => rfl⟩
      rw [List.flatten_nil, List.append_nil]
      exact .more hmore
  | cons chunk chunks ih =>
      have hstable := nextFrame_stable s.id
      obtain ⟨outs, seq', rest, alive, h⟩ := hstable.exists_parse s.expectSeq (s.rx ++ chunk)
      have hfirst := parseFrames_eq (s := s.receive chunk) h
      rw [List.flatten_cons, ← List.append_assoc]
      cases alive with
      | false =>
          obtain ⟨rest', hignore⟩ := h.ignore hstable chunks.flatten
          refine ⟨outs, seq', rest', false, s.rx ++ chunk, hignore, ?_, fun hfalse => Bool.noConfusion hfalse⟩
          rw [parseChunks, hfirst, parsed_receive]
          rfl
      | true =>
          obtain ⟨outs', seq'', rest', alive', rx, hparse, hchunks, hrx⟩ :=
            ih (s.parsed outs seq' rest) (by rw [parsed_id]; exact h.next_rest)
          rw [parsed_id] at hparse
          refine ⟨outs ++ outs', seq'', rest', alive', rx, h.resume hstable hparse, ?_, hrx⟩
          rw [parseChunks, hfirst, parsed_receive, Option.bind_eq_bind, Option.bind_some, if_pos rfl]
          rw [if_pos rfl, hchunks, parsed_parsed, Option.bind_some, List.filterMap_append]
          rfl

theorem react_appended (s : Session) (replies : List Reply) (hseq : s.outSeq < word32) :
    (s.react replies).appended = s.appended ++ numbered s.outSeq (replies.filterMap Reply.message?) := by
  induction replies generalizing s with
  | nil => simp [react, numbered]
  | cons reply replies ih =>
      rw [react]
      cases reply with
      | submit c => exact ih s hseq
      | reject tag reason =>
          have hnext : ((s.act (.reject tag reason)).1.outSeq) = (s.outSeq + 1) % word32 := rfl
          rw [ih _ (by rw [hnext]; exact Nat.mod_lt _ (by decide)), hnext]
          have hcons := numbered_cons hseq (.reject tag reason) (replies.filterMap Reply.message?)
          change (s.appended ++ [_]) ++ _ = s.appended ++ numbered s.outSeq (.reject tag reason :: _)
          rw [hcons, List.append_assoc]
          rfl

end Session

/-! ### The frames of a stream -/

namespace Wire

/-- A complete frame with a header that passes. -/
structure IsFrame (frame : List UInt8) : Prop where
  header : headerSize ≤ frame.length
  ok : (Header.ofBytes frame).ok = true
  length : frame.length = (Header.ofBytes frame).len

/-- Where a stream stops giving frames with the expected sequence numbers: what is left, whether the session stays open, and what is still replied. -/
inductive Ending (seq : Nat) (rest : List UInt8) : Bool → List Reply → Prop
  | short (h : rest.length < headerSize) : Ending seq rest true []
  | waiting (h : headerSize ≤ rest.length) (hok : (Header.ofBytes rest).ok = true)
      (hlen : rest.length < (Header.ofBytes rest).len) : Ending seq rest true []
  | malformed (h : headerSize ≤ rest.length) (hok : (Header.ofBytes rest).ok = false) : Ending seq rest false []
  | wrongSeq (h : headerSize ≤ rest.length) (hok : (Header.ofBytes rest).ok = true)
      (hlen : (Header.ofBytes rest).len ≤ rest.length) (hseq : (Header.ofBytes rest).seq ≠ seq) :
      Ending seq rest false [.reject 0 .badSeq]

variable {session seq seq' : Nat} {bytes rest : List UInt8} {outs : List Reply} {alive : Bool}

/-- A parse cuts its bytes into frames with consecutive sequence numbers and an ending. -/
theorem parse_frames (h : Parse (nextFrame session) seq bytes outs seq' rest alive) (hseq : seq < word32) :
    ∃ (frames : List (List UInt8)) (last : List Reply), bytes = frames.flatten ++ rest ∧
      (∀ i f, frames[i]? = some f → IsFrame f ∧ (Header.ofBytes f).seq = (seq + i) % word32) ∧
      Ending ((seq + frames.length) % word32) rest alive last ∧ outs = frames.map (frameReply session) ++ last := by
  induction h with
  | @more seq bytes hnext =>
      have hlooked := nextFrame_looked session seq bytes
      rw [hnext] at hlooked
      refine ⟨[], [], rfl, fun i f hf => by simp at hf, ?_, rfl⟩
      cases hlooked with
      | short h => exact .short h
      | waiting h hok hlen => exact .waiting h hok hlen
  | @stop seq bytes out hnext =>
      have hlooked := nextFrame_looked session seq bytes
      rw [hnext] at hlooked
      refine ⟨[], out.toList, rfl, fun i f hf => by simp at hf, ?_, rfl⟩
      rw [List.length_nil, Nat.add_zero, Nat.mod_eq_of_lt hseq]
      cases hlooked with
      | malformed h hok => exact .malformed h hok
      | wrongSeq h hok hlen hne => exact .wrongSeq h hok hlen hne
  | @item seq seq₁ seq₂ bytes rest out n outs alive hnext hrest ih =>
      have hlooked := nextFrame_looked session seq bytes
      rw [hnext] at hlooked
      cases hlooked with
      | item h hok hlen heq =>
          obtain ⟨frames, last, hbytes, hframes, hending, houts⟩ := ih (Nat.mod_lt _ (by decide))
          have hheader := Header.ofBytes_take (Header.headerSize_lt hok).le hlen
          have hlength : (bytes.take (Header.ofBytes bytes).len).length = (Header.ofBytes bytes).len := by
            rw [List.length_take, Nat.min_eq_left hlen]
          have hshift : ∀ i, ((seq + 1) % word32 + i) % word32 = (seq + (i + 1)) % word32 := fun i => by
            rw [Nat.mod_add_mod, Nat.add_assoc, Nat.add_comm 1 i]
          refine ⟨bytes.take (Header.ofBytes bytes).len :: frames, last, ?_, ?_, ?_, ?_⟩
          · rw [List.flatten_cons, List.append_assoc, ← hbytes, List.take_append_drop]
          · intro i f hf
            cases i with
            | zero =>
                rw [List.getElem?_cons_zero, Option.some.injEq] at hf
                subst hf
                refine ⟨⟨?_, ?_, ?_⟩, ?_⟩
                · rw [hlength]
                  exact (Header.headerSize_lt hok).le
                · rw [hheader, hok]
                · rw [hheader, hlength]
                · rw [hheader, heq, Nat.add_zero, Nat.mod_eq_of_lt hseq]
            | succ i =>
                rw [List.getElem?_cons_succ] at hf
                rw [← hshift]
                exact hframes i f hf
          · rw [hshift] at hending
            exact hending
          · rw [houts]
            rfl

/-! ### The meaning of a stream -/

theorem decodeInt_eq_signed {n : Nat} (h : n < 2 ^ 64) : decodeInt n = signed n := by
  rw [decodeInt, signed, BitVec.toInt_eq_toNat_cond, BitVec.toNat_ofNat, Nat.mod_eq_of_lt h]
  split <;> split <;> omega

theorem mem_frameSizes_iff {type len : Nat} : (type, len) ∈ frameSizes ↔ len ≠ 0 ∧ len = sizeFor type := by
  constructor
  · intro h
    simp only [frameSizes, List.mem_cons, Prod.mk.injEq, List.not_mem_nil, or_false] at h
    rcases h with ⟨rfl, rfl⟩ | ⟨rfl, rfl⟩ | ⟨rfl, rfl⟩ | ⟨rfl, rfl⟩ | ⟨rfl, rfl⟩ | ⟨rfl, rfl⟩ | ⟨rfl, rfl⟩ | ⟨rfl, rfl⟩ |
      ⟨rfl, rfl⟩ | ⟨rfl, rfl⟩ | ⟨rfl, rfl⟩ | ⟨rfl, rfl⟩ | ⟨rfl, rfl⟩ <;> decide
  · rintro ⟨hpos, rfl⟩
    rw [sizeFor] at hpos ⊢
    cases htype : MsgType.ofCode type with
    | none =>
        rw [htype] at hpos
        exact absurd rfl hpos
    | some t =>
        rw [← MsgType.code_of_ofCode htype]
        cases t <;> decide

theorem headed_iff : Headed bytes ↔ headerSize ≤ bytes.length ∧ (Header.ofBytes bytes).ok = true := by
  rw [Header.ok, decide_eq_true_eq, ← mem_frameSizes_iff]
  exact ⟨fun h => ⟨h.length, h.version, h.size⟩, fun h => ⟨h.1, h.2.1, h.2.2⟩⟩

theorem IsFrame.headed {frame : List UInt8} (h : IsFrame frame) : Headed frame := headed_iff.2 ⟨h.header, h.ok⟩

theorem field_lt (bytes : List UInt8) (offset width : Nat) : field bytes offset width < 256 ^ width := by
  refine (decode_lt _).trans_le (Nat.pow_le_pow_right (by decide) ?_)
  rw [List.length_take]
  exact Nat.min_le_left _ _

theorem order?_eq_none {frame : List UInt8} (h1 : field frame 2 1 ≠ 1) (h2 : field frame 2 1 ≠ 2)
    (h3 : field frame 2 1 ≠ 3) : order? session frame = none := by
  rw [order?]
  split
  · exact absurd ‹_› h1
  · exact absurd ‹_› h2
  · exact absurd ‹_› h3
  · rfl

theorem frameReply_eq (session : Nat) (frame : List UInt8) :
    frameReply session frame =
      match order? session frame with
      | some c => .submit c
      | none => .reject (if field frame 2 1 = 1 then field frame 8 8 else 0) .badMessage := by
  have hprice : decodeInt (field frame 24 8) = signed (field frame 24 8) := decodeInt_eq_signed (field_lt frame 24 8)
  have htype : (Header.ofBytes frame).type = field frame 2 1 := rfl
  rw [frameReply, htype]
  by_cases h1 : field frame 2 1 = 1
  · rw [order?, h1]
    simp only [MsgType.ofCode, NewOrder.reply, NewOrder.ofBytes, hprice]
    split <;> rfl
  · by_cases h2 : field frame 2 1 = 2
    · rw [order?, h2]
      rfl
    · by_cases h3 : field frame 2 1 = 3
      · rw [order?, h3]
        simp only [MsgType.ofCode, ReplaceOrder.reply, ReplaceOrder.ofBytes, hprice]
      · rw [order?_eq_none h1 h2 h3, if_neg h1]
        cases hcode : MsgType.ofCode (field frame 2 1) with
        | none => rfl
        | some t =>
            rw [← MsgType.code_of_ofCode hcode] at h1 h2 h3
            cases t with
            | newOrder => exact absurd rfl h1
            | cancelOrder => exact absurd rfl h2
            | replaceOrder => exact absurd rfl h3
            | _ => rfl

theorem reasonCode_eq (reason : RejectReason) : reasonCode reason = reason.number := by
  cases reason <;> rfl

theorem encodeInt_eq_twosComplement (v : Int) : encodeInt v = encode 8 (twosComplement v) := by
  rw [encodeInt, BitVec.toNat_ofInt]
  rfl

theorem make_eq_render {m : Message} {fields : List (Nat × Nat)} (hbody : m.body = fields.flatMap fun f => encode f.1 f.2) :
    m.make = render m.type.code fields := by
  funext seq
  have hsize : m.type.size = 8 + m.body.length := by
    rw [← m.length_make seq, Message.make, List.length_append, Header.length_bytes]
    rfl
  rw [render, ← hbody, ← hsize]
  rfl

theorem make_reject (tag : Nat) (reason : RejectReason) : (Message.reject tag reason).make = rejectFrame tag reason.number := by
  rw [← reasonCode_eq]
  exact make_eq_render (by simp [Message.body])

theorem numbered_eq_stamped (ms : List Message) : numbered 1 ms = stamped (ms.map Message.make) := by
  apply List.ext_getElem
  · simp [numbered, stamped]
  · intro i h h'
    simp [numbered, stamped]

theorem frameReply_command? (session : Nat) (frame : List UInt8) :
    (frameReply session frame).command? = order? session frame := by
  rw [frameReply_eq]
  cases order? session frame <;> rfl

theorem make_refused (session : Nat) (frames : List (List UInt8)) :
    ((frames.map (frameReply session)).filterMap Reply.message?).map Message.make =
      (frames.filter fun f => (order? session f).isNone).map badMessage := by
  induction frames with
  | nil => rfl
  | cons f frames ih =>
      rw [List.map_cons, List.filterMap_cons, List.filter_cons, frameReply_eq]
      cases horder : order? session f with
      | some c => exact ih
      | none =>
          refine congrArg₂ List.cons ?_ ih
          exact make_reject _ .badMessage

theorem Ending.stops {last : List Reply} (h : Ending seq rest alive last) :
    Stops seq rest alive ((last.filterMap Reply.message?).map Message.make) := by
  cases h with
  | short h => exact .short h
  | waiting h hok hlen => exact .incomplete (headed_iff.2 ⟨h, hok⟩) hlen
  | malformed h hok =>
      refine .malformed h fun hheaded => ?_
      rw [(headed_iff.1 hheaded).2] at hok
      cases hok
  | wrongSeq h hok hlen hseq =>
      have hlast : [rejectFrame 0 7] = (([.reject 0 .badSeq] : List Reply).filterMap Reply.message?).map Message.make :=
        congrArg (fun f => [f]) (make_reject 0 .badSeq).symm
      rw [← hlast]
      exact .wrongSeq (headed_iff.2 ⟨h, hok⟩) hlen hseq

theorem parse_means (h : Parse (nextFrame session) 1 bytes outs seq' rest alive) :
    Means session bytes (outs.filterMap Reply.command?) ((outs.filterMap Reply.message?).map Message.make) alive := by
  obtain ⟨frames, last, hstream, hframes, hending, rfl⟩ := parse_frames h (by decide)
  refine ⟨frames, rest, _, hstream, fun i f hf => ?_, hending.stops, ?_, ?_⟩
  · obtain ⟨hframe, hseq⟩ := hframes i f hf
    exact ⟨hframe.headed, hframe.length, hseq⟩
  · have hlast : last.filterMap Reply.command? = [] := by cases hending <;> rfl
    rw [List.filterMap_append, hlast, List.append_nil, List.filterMap_map]
    exact congrArg (List.filterMap · frames) (funext (frameReply_command? session))
  · rw [List.filterMap_append, List.map_append, make_refused]

end Wire

namespace Session

/-- The gateway has done what a stream means: submitted its commands and queued its rejects, numbered from one. -/
def Decodes (session : Nat) (stream : List UInt8) (p : Parsed) : Prop :=
  ∃ rejects, Means session stream p.commands rejects p.ok ∧ p.session.appended = stamped rejects

/-- However a client's stream is cut, the gateway does what it does for the whole of it, and that is to decode its leading frames. -/
theorem parseChunks_decodes (fd id : Nat) (chunks : List (List UInt8)) :
    (∀ s : Session, s.parseFrames.isSome) ∧
      ∃ whole pieces : Parsed,
        ((accepted fd id).receive chunks.flatten).parseFrames = some whole ∧
          (accepted fd id).parseChunks chunks = some pieces ∧
          pieces.commands = whole.commands ∧ pieces.session.appended = whole.session.appended ∧
          pieces.ok = whole.ok ∧ (whole.ok = true → pieces.session = whole.session) ∧
          Decodes id chunks.flatten whole := by
  have hone : 1 < word32 := by decide
  refine ⟨parseFrames_isSome, ?_⟩
  obtain ⟨outs, seq', rest, alive, rx, hparse, hchunks, hrx⟩ :=
    parseChunks_eq chunks (accepted fd id) (Looked.eq (.short (Nat.zero_lt_succ 7)))
  have hwhole := parseFrames_eq (s := (accepted fd id).receive chunks.flatten) hparse
  rw [parsed_receive] at hwhole
  refine ⟨_, _, hwhole, hchunks, rfl, rfl, rfl, ?_, _, parse_means hparse, ?_⟩
  · intro halive
    rw [hrx halive, if_pos halive]
  · rw [← numbered_eq_stamped]
    exact react_appended (accepted fd id) _ hone

end Session

end Matchbox
