import Matchbox.Gateway.Parse
import Matchbox.Stream.Resume

/-!
# The resume point of run_md

`run_md` of `main_client.cpp` with its connections: the outer loop connects, sends a Subscribe for `from` and reads until the connection is given up, and then `from` becomes `last_seq + 1`. Connections that fail before the whole Subscribe is written leave `from` as it is and are left out.

`last_seq` starts at zero whatever `--from` says. `run_subscribes_iff` says what follows: every Subscribe asks for what comes after everything the client has heard, but not for less than `--from`, exactly when the client started at one or no connection broke before its first frame. `run_subscribes_early` is a client that asks for frame 2 and is given frame 1.
-/

namespace Matchbox

open Wire LittleEndian

/-! ### The client -/

/-- The state of `run_md` across its connections. -/
structure MdClient extends RunMd where
  /-- `from`. -/
  fromSeq : Nat
  /-- `--stats`. -/
  stats : Bool := false
  rx : List UInt8 := []
  reconnects : Nat := 0
  /-- Ghost: the stream sequence numbers that the frames so far have carried or told of. No code reads it. -/
  heard : List Nat := []
  /-- Ghost: the sequence numbers of the data frames handled. No code reads it. -/
  handled : List Nat := []
  /-- Ghost: `from_seq` of the Subscribes sent, each with what was heard until then. No code reads it. -/
  subscribes : List (Nat × List Nat) := []

namespace Wire

/-- Whether `run_md` takes a frame for data. -/
def isDataFrame (p : List UInt8) : Bool :=
  (Header.ofBytes p).type ≠ MsgType.heartbeat.code ∧ (Header.ofBytes p).type ≠ MsgType.gap.code

/-- The stream sequence number that a frame carries, or the last one that it tells of: the head of a Heartbeat, the end of a Gap. -/
def tells (p : List UInt8) : Nat :=
  if (Header.ofBytes p).type = MsgType.heartbeat.code then (Heartbeat.ofBytes p).headSeq
  else if (Header.ofBytes p).type = MsgType.gap.code then (Gap.ofBytes p).resumedAt - 1
  else (Header.ofBytes p).seq

end Wire

/-- The highest of some sequence numbers, which begin at one. -/
def highest (seqs : List Nat) : Nat := seqs.foldl max 0

namespace MdClient

/-- What the callback does with a frame. -/
def onFrame (c : MdClient) (p : List UInt8) : MdClient :=
  { c with
    toRunMd := c.toRunMd.onFrame p
    heard := c.heard ++ [tells p]
    handled := if isDataFrame p then c.handled ++ [(Header.ofBytes p).seq] else c.handled }

/-- The callback of `for_each_frame`. It always reads the header, and the structs of four types; with `--stats` it does not look into a Top. -/
def callback (stats : Bool) : Callback MdClient where
  reads := fun type =>
    if type = MsgType.heartbeat.code then MsgType.heartbeat.size
    else if type = MsgType.gap.code then MsgType.gap.size
    else if type = MsgType.trade.code then MsgType.trade.size
    else if type = MsgType.top.code ∧ stats = false then MsgType.top.size
    else headerSize
  act := fun c _ p => c.onFrame p

/-- What the inner loop does with a chunk. It answers `none` when `for_each_frame` reads outside `rx` or does not return. -/
def receive (c : MdClient) (chunk : List UInt8) : Option MdClient :=
  let rx := c.rx ++ chunk
  match forEachFrame (callback c.stats) (rx.length + 1) rx 0 c with
  | .returned c' _ rest => some { c' with rx := rest }
  | .failed => none
  | .running => none

/-- The top of the outer loop, once there is a connection and the Subscribe is written. -/
def connect (c : MdClient) : MdClient :=
  { c with rx := [], subscribes := c.subscribes ++ [(c.fromSeq, c.heard)] }

/-- The end of the outer loop. -/
def again (c : MdClient) : MdClient :=
  { c with reconnects := wrap64 (c.reconnects + 1), fromSeq := (c.lastSeq + 1) % word32 }

/-- `run_md`, which gives a connection up at any moment: at the end of the file, on an error or without a heartbeat. -/
def program : Subscribing MdClient where
  receive := receive
  reconnect := fun c => c.again.connect
  request := fun c => makeSubscribe c.fromSeq

end MdClient

/-! ### One frame -/

theorem highest_concat (seqs : List Nat) (seq : Nat) : highest (seqs ++ [seq]) = max (highest seqs) seq := by
  rw [highest, List.foldl_append]
  rfl

namespace Wire

variable {p : List UInt8} (back : List UInt8)

theorem Gap.ofBytes_append (h : 24 ≤ p.length) : Gap.ofBytes (p ++ back) = Gap.ofBytes p := by
  rw [Gap.ofBytes, Gap.ofBytes, field_append_left back (by omega), field_append_left back (by omega)]

theorem Heartbeat.ofBytes_append (h : 24 ≤ p.length) : Heartbeat.ofBytes (p ++ back) = Heartbeat.ofBytes p := by
  rw [Heartbeat.ofBytes, Heartbeat.ofBytes, field_append_left back (by omega), field_append_left back (by omega)]

end Wire

namespace MdClient

variable {base : Nat} {c c' : MdClient}

theorem onFrame_append (c : MdClient) {p : List UInt8} (back : List UInt8) (h : 24 ≤ p.length) :
    c.onFrame (p ++ back) = c.onFrame p := by
  have hheader : Header.ofBytes (p ++ back) = Header.ofBytes p := Header.ofBytes_append back (by rw [headerSize]; omega)
  rw [onFrame, onFrame, RunMd.onFrame, RunMd.onFrame, tells, tells, isDataFrame, isDataFrame, hheader,
    Gap.ofBytes_append back h, Heartbeat.ofBytes_append back h]

theorem onFrame_data (c : MdClient) {m : Message} (hm : m.isData = true) {seq : Nat} (hseq : seq < word32) :
    (c.onFrame (m.make seq)).heard = c.heard ++ [seq] ∧ (c.onFrame (m.make seq)).lastSeq = seq ∧
      (c.onFrame (m.make seq)).handled = c.handled ++ [seq] := by
  have hcontrol : m.type.code ≠ MsgType.heartbeat.code ∧ m.type.code ≠ MsgType.gap.code := by
    cases m <;> simp [Message.isData, Message.type, MsgType.code] at hm ⊢
  have hheader := m.ofBytes_make_self seq
  rw [Nat.mod_eq_of_lt hseq] at hheader
  rw [onFrame, RunMd.onFrame, tells, isDataFrame, hheader]
  dsimp only
  rw [if_neg hcontrol.1, if_neg hcontrol.1, if_neg hcontrol.2, if_neg hcontrol.2, if_pos (decide_eq_true hcontrol)]
  exact ⟨rfl, rfl, rfl⟩

theorem onFrame_gap (c : MdClient) {a b : Nat} (hpos : 0 < b) (hb : b < word32) :
    (c.onFrame ((Message.gap a b).make 0)).heard = c.heard ++ [b - 1] ∧
      (c.onFrame ((Message.gap a b).make 0)).lastSeq = b - 1 ∧
      (c.onFrame ((Message.gap a b).make 0)).handled = c.handled := by
  have hb64 : b % 2 ^ 64 = b := Nat.mod_eq_of_lt (hb.trans (by decide))
  have hheader := (Message.gap a b).ofBytes_make_self 0
  rw [onFrame, RunMd.onFrame, tells, isDataFrame, hheader, Gap.ofBytes_make, hb64]
  refine ⟨rfl, ?_, rfl⟩
  change wrap64 (b + 2 ^ 64 - 1) % word32 = b - 1
  simp only [wrap64, word32] at hb ⊢
  omega

theorem onFrame_heartbeat (c : MdClient) (ts : Nat) {i : Nat} (hi : i < word32) :
    (c.onFrame ((Message.heartbeat ts i).make 0)).heard = c.heard ++ [i] ∧
      (c.onFrame ((Message.heartbeat ts i).make 0)).lastSeq = max c.lastSeq i ∧
      (c.onFrame ((Message.heartbeat ts i).make 0)).handled = c.handled := by
  have hi64 : i % 2 ^ 64 = i := Nat.mod_eq_of_lt (hi.trans (by decide))
  have hheader := (Message.heartbeat ts i).ofBytes_make_self 0
  rw [onFrame, RunMd.onFrame, tells, isDataFrame, hheader, Heartbeat.ofBytes_make, hi64]
  refine ⟨rfl, ?_, rfl⟩
  change max c.lastSeq (i % word32) = max c.lastSeq i
  rw [Nat.mod_eq_of_lt hi]

/-- The number at which the stream continues for a client that began at `base`. -/
def next (base : Nat) (c : MdClient) : Nat := max base (1 + highest c.heard)

/-- The account of a client that began at `base`. -/
structure Follows (base : Nat) (c : MdClient) : Prop where
  lastSeq : c.lastSeq = highest c.heard
  heard : c.heard ≠ [] → base ≤ 1 + highest c.heard
  handled : ∀ q ∈ c.handled, base ≤ q ∧ q ≤ highest c.heard
  increasing : c.handled.Pairwise (· < ·)

/-- A frame that tells of the numbers up to `t`, and carries `t` if it is data. -/
theorem Follows.told (h : c.Follows base) {t : Nat} (hheard : c'.heard = c.heard ++ [t]) (hlast : c'.lastSeq = t)
    (hnext : c.next base ≤ t + 1)
    (hhandled : c'.handled = c.handled ∨ c'.handled = c.handled ++ [t] ∧ c.next base ≤ t) :
    c'.Follows base ∧ c'.next base = t + 1 := by
  rw [next] at hnext hhandled
  have hhighest : highest c'.heard = t := by
    rw [hheard, highest_concat]
    omega
  have hold : ∀ q ∈ c.handled, base ≤ q ∧ q ≤ t := by
    intro q hq
    have hin := h.handled q hq
    omega
  refine ⟨⟨hlast.trans hhighest.symm, fun _ => by omega, ?_, ?_⟩, by rw [next]; omega⟩
  · intro q hq
    rw [hhighest]
    rcases hhandled with hsame | ⟨hmore, hle⟩
    · rw [hsame] at hq
      exact hold q hq
    · rw [hmore] at hq
      rcases List.mem_append.1 hq with hq | hq
      · exact hold q hq
      · rw [List.mem_singleton.1 hq]
        omega
  · rcases hhandled with hsame | ⟨hmore, hle⟩
    · rw [hsame]
      exact h.increasing
    · rw [hmore, List.pairwise_append]
      refine ⟨h.increasing, List.pairwise_singleton _ _, fun q hq q' hq' => ?_⟩
      have hin := h.handled q hq
      rw [List.mem_singleton.1 hq']
      omega

theorem Follows.frame (h : c.Follows base) {capacity e : Nat} {published : List Message} {x : Nat × List UInt8}
    (hx : Streams capacity published (c.next base) [x] e) (he : e < word32)
    (hdata : ∀ m ∈ published, m.isData = true) : (c.onFrame x.2).Follows base ∧ (c.onFrame x.2).next base = e := by
  have hle := hx.le
  rcases hx.single_inv with ⟨m, hm, hbytes, rfl⟩ | ⟨hbytes, hlt⟩ | ⟨ts, i, hbytes, hi, rfl⟩
  · obtain ⟨hheard, hlast, hhandled⟩ := c.onFrame_data (hdata m hm) (Nat.lt_of_succ_lt he)
    rw [hbytes]
    exact h.told hheard hlast (Nat.le_succ _) (Or.inr ⟨hhandled, le_rfl⟩)
  · have hpos : 0 < e := Nat.zero_lt_of_lt hlt
    obtain ⟨hheard, hlast, hhandled⟩ := c.onFrame_gap (a := c.next base) hpos he
    rw [hbytes]
    have htold := h.told hheard hlast (by omega) (Or.inl hhandled)
    rw [Nat.sub_add_cancel hpos] at htold
    exact htold
  · obtain ⟨hheard, hlast, hhandled⟩ := c.onFrame_heartbeat ts (i := i) (by omega)
    have hbehind : c.lastSeq ≤ i := by
      have hlast := h.lastSeq
      rw [next] at hi
      omega
    rw [max_eq_right hbehind] at hlast
    rw [hbytes, hi]
    exact h.told hheard hlast hi.le (Or.inl hhandled)

/-! ### Frames in pieces -/

theorem headerSize_le_reads (stats : Bool) (type : Nat) : headerSize ≤ (callback stats).reads type := by
  rw [callback]
  dsimp only
  repeat' split
  all_goals decide

theorem reads_le_size (stats : Bool) (t : MsgType) : (callback stats).reads t.code ≤ t.size := by
  cases t <;> cases stats <;> decide

theorem onFrame_take (c : MdClient) (stats : Bool) {bytes : List UInt8}
    (h : (callback stats).reads (Header.ofBytes bytes).type ≤ bytes.length) :
    c.onFrame (bytes.take ((callback stats).reads (Header.ofBytes bytes).type)) = c.onFrame bytes := by
  by_cases hcontrol : (Header.ofBytes bytes).type = MsgType.heartbeat.code ∨ (Header.ofBytes bytes).type = MsgType.gap.code
  · have hreads : (callback stats).reads (Header.ofBytes bytes).type = 24 := by
      rcases hcontrol with htype | htype <;> rw [htype] <;> rfl
    rw [hreads] at h ⊢
    have happend := c.onFrame_append (bytes.drop 24) (p := bytes.take 24) (by rw [List.length_take]; omega)
    rw [List.take_append_drop] at happend
    exact happend.symm
  · rw [not_or] at hcontrol
    have hheader := Header.ofBytes_take (headerSize_le_reads stats _) h
    have hcounters : c.toRunMd.onFrame (bytes.take ((callback stats).reads (Header.ofBytes bytes).type)) =
        c.toRunMd.onFrame bytes := by
      simp only [RunMd.onFrame, hheader, if_neg hcontrol.1, if_neg hcontrol.2]
    have htells : tells (bytes.take ((callback stats).reads (Header.ofBytes bytes).type)) = tells bytes := by
      simp only [tells, hheader, if_neg hcontrol.1, if_neg hcontrol.2]
    rw [onFrame, onFrame, hcounters, htells, isDataFrame, isDataFrame, hheader]

theorem handle_make (c : MdClient) (stats : Bool) (m : Message) (seq : Nat) (back : List UInt8) :
    (callback stats).handle c (m.make seq ++ back) = some (c.onFrame (m.make seq)) := by
  have hfits : (callback stats).reads (Header.ofBytes (m.make seq)).type ≤ (m.make seq).length := by
    rw [m.ofBytes_make_self, m.length_make]
    exact reads_le_size stats m.type
  rw [(callback stats).handle_append (isFrame_make m seq) hfits, ← c.onFrame_take stats hfits]
  rfl

/-- What `for_each_frame` leaves alone. -/
structure SameConnection (c c' : MdClient) : Prop where
  fromSeq : c'.fromSeq = c.fromSeq
  subscribes : c'.subscribes = c.subscribes

theorem Follows.receive {capacity e : Nat} {published : List Message} (he : e < word32)
    (hdata : ∀ m ∈ published, m.isData = true) (h : c.Follows base) {items : List (Nat × List UInt8)}
    (hitems : Streams capacity published (c.next base) items e) {chunk back : List UInt8}
    (hbytes : c.rx ++ chunk ++ back = (items.map Prod.snd).flatten) :
    ∃ c' rest, c.receive chunk = some c' ∧ c'.Follows base ∧ c.SameConnection c' ∧
      Streams capacity published (c'.next base) rest e ∧ c'.rx ++ back = (rest.map Prod.snd).flatten := by
  obtain ⟨c', calls, rest, next', left, hwalk, ⟨hfollows, hsame, rfl⟩, hleft, hrest⟩ := Streams.walk
    (callback c.stats).handle (A := fun c' next => c'.Follows base ∧ c.SameConnection c' ∧ c'.next base = next)
    (fun {c' next b x} h hx hb hf back => by
      obtain ⟨hfollows, hsame, rfl⟩ := h
      obtain ⟨m, seq, hbytes⟩ := hx.exists_make
      obtain ⟨hfollows', hnext⟩ := hfollows.frame hx (hb.trans_lt he) hdata
      rw [hbytes] at hfollows' hnext ⊢
      exact ⟨_, c'.handle_make _ m seq back, hfollows', ⟨hsame.fromSeq, hsame.subscribes⟩, hnext⟩)
    ⟨h, ⟨rfl, rfl⟩, rfl⟩ hitems hbytes
  refine ⟨{ c' with rx := rest }, left, ?_, ⟨hfollows.lastSeq, hfollows.heard, hfollows.handled, hfollows.increasing⟩,
    ⟨hsame.fromSeq, hsame.subscribes⟩, hleft, hrest⟩
  rw [MdClient.receive, Callback.forEachFrame_eq _ _ (Nat.zero_le _), List.drop_zero, hwalk]

end MdClient

/-! ### Connections -/

namespace MdClient

/-- The account of a client that was started with `--from first` and began its stream at `base`. -/
structure Account (first base : Nat) (c : MdClient) : Prop where
  follows : c.Follows base
  pos : 1 ≤ base
  /-- The stream begins elsewhere only after a connection that broke before its first frame. -/
  began : base = first ∨ base = 1 ∧ ∃ x ∈ c.subscribes.tail, x.2 = []
  opening : c.subscribes.head? = some (first, [])
  later : ∀ x ∈ c.subscribes.tail, x.1 = 1 + highest x.2 ∧ (x.2 ≠ [] → base ≤ 1 + highest x.2)

variable {first base : Nat} {c c' : MdClient}

theorem Account.frames (h : c.Account first base) (hfollows : c'.Follows base) (hsame : c.SameConnection c') :
    c'.Account first base := by
  refine ⟨hfollows, h.pos, ?_, ?_, ?_⟩
  · rw [hsame.subscribes]
    exact h.began
  · rw [hsame.subscribes]
    exact h.opening
  · rw [hsame.subscribes]
    exact h.later

theorem Account.fromSeq_again (h : c.Account first base) (hnext : c.next base < word32) :
    c.again.fromSeq = 1 + highest c.heard := by
  have hle : 1 + highest c.heard ≤ c.next base := le_max_right _ _
  change (c.lastSeq + 1) % word32 = _
  rw [h.follows.lastSeq, Nat.add_comm]
  exact Nat.mod_eq_of_lt (hle.trans_lt hnext)

theorem Account.tail_connect (h : c.Account first base) :
    c.again.connect.subscribes.tail = c.subscribes.tail ++ [(c.again.fromSeq, c.heard)] := by
  have hne : c.subscribes ≠ [] := by
    intro hnil
    have hopening := h.opening
    rw [hnil] at hopening
    cases hopening
  exact List.tail_append_of_ne_nil hne

/-- The next connection continues a stream that began at `base'`, if that is not above what comes next. -/
theorem Account.resume (h : c.Account first base) (hfrom : c.again.fromSeq = 1 + highest c.heard) {base' : Nat}
    (hpos : 1 ≤ base') (hle : base' ≤ base) (hbase : base' ≤ 1 + highest c.heard)
    (hbegan : base' = first ∨ base' = 1 ∧ ∃ x ∈ c.again.connect.subscribes.tail, x.2 = []) :
    c.again.connect.Account first base' ∧ c.again.connect.next base' = c.again.fromSeq := by
  have hopening : c.again.connect.subscribes.head? = some (first, []) := by
    change (c.subscribes ++ [(c.again.fromSeq, c.heard)]).head? = _
    rw [List.head?_append, h.opening]
    rfl
  refine ⟨⟨⟨h.follows.lastSeq, fun _ => hbase, fun q hq => ?_, h.follows.increasing⟩, hpos, hbegan, hopening,
    fun x hx => ?_⟩, ?_⟩
  · obtain ⟨hge, hle'⟩ := h.follows.handled q hq
    exact ⟨hle.trans hge, hle'⟩
  · rw [h.tail_connect] at hx
    rcases List.mem_append.1 hx with hx | hx
    · obtain ⟨hlater, hmore⟩ := h.later x hx
      exact ⟨hlater, fun hne => hle.trans (hmore hne)⟩
    · rw [List.mem_singleton.1 hx]
      exact ⟨hfrom, fun _ => hbase⟩
  · rw [hfrom]
    exact max_eq_right hbase

/-- The next connection begins where the client has got to, or at one if it has heard of nothing. -/
theorem Account.reconnect (h : c.Account first base) (hfrom : c.again.fromSeq = 1 + highest c.heard) :
    ∃ base', c.again.connect.Account first base' ∧ c.again.connect.next base' = c.again.fromSeq := by
  by_cases hheard : c.heard = []
  · refine ⟨1, h.resume hfrom le_rfl h.pos (Nat.le_add_right _ _) (Or.inr ⟨rfl, (c.again.fromSeq, c.heard), ?_, hheard⟩)⟩
    rw [h.tail_connect]
    exact List.mem_append_right _ (List.mem_singleton_self _)
  · refine ⟨base, h.resume hfrom h.pos le_rfl (h.follows.heard hheard) ?_⟩
    rcases h.began with heq | ⟨hone, x, hx, hsilent⟩
    · exact Or.inl heq
    · refine Or.inr ⟨hone, x, ?_, hsilent⟩
      rw [h.tail_connect]
      exact List.mem_append_left _ hx

theorem account_connect (hfirst : 1 ≤ first) (stats : Bool) :
    (connect { fromSeq := first, stats := stats }).Account first first :=
  ⟨⟨rfl, fun hne => absurd rfl hne, fun q hq => absurd hq List.not_mem_nil, List.Pairwise.nil⟩, hfirst, Or.inl rfl, rfl,
    fun x hx => by cases hx⟩

theorem program_keeps (first : Nat) :
    program.Keeps fun c next buf => ∃ base, c.Account first base ∧ c.next base = next ∧ c.rx = buf where
  pos := by
    rintro c _ _ ⟨base, h, rfl, rfl⟩
    exact h.pos.trans (le_max_left _ _)
  receive := by
    rintro c _ _ ⟨base, h, rfl, rfl⟩ capacity published items e hitems he hdata chunk back hbytes
    obtain ⟨c', rest, hreceive, hfollows, hsame, hrest, hbytes'⟩ := h.follows.receive he hdata hitems hbytes
    exact ⟨c', _, _, rest, hreceive, ⟨base, h.frames hfollows hsame, rfl, rfl⟩, hrest, hbytes'⟩
  reconnect := by
    rintro c _ _ ⟨base, h, rfl, rfl⟩ hnext
    have hfrom := h.fromSeq_again hnext
    obtain ⟨base', h', hnext'⟩ := h.reconnect hfrom
    refine ⟨c.again.fromSeq, ?_, ⟨base', h', hnext', rfl⟩, rfl⟩
    rw [hfrom]
    exact le_max_right _ _

end MdClient

namespace MdNet

/-- `run_md --from first`, connected and not yet accepted. -/
def start (server : Publisher × Poller) (first : Nat) (stats : Bool) : Net MdClient.program :=
  Net.start MdClient.program server (.connect { fromSeq := first, stats := stats })

/-- What the Subscribes of a client ask for, and what the client handles. Something was heard before every Subscribe but the first exactly when no connection broke before its first frame. -/
theorem run_subscribes_iff (cfg : Publisher.Config) (hbacklog : 1 ≤ cfg.maxBacklog) (before : List Publisher.Action)
    (hbefore : ∀ m ∈ before.flatMap Publisher.Action.published, m.isData = true) (first : Nat) (stats : Bool)
    (hfirst : 1 ≤ first) (hhead : first ≤ (Publisher.run cfg before).1.ring.head + 1) (actions : List Net.Action)
    (n : Net MdClient.program) (hrun : (start (Publisher.run cfg before) first stats).run actions = some n)
    (hfew : n.server.1.published.length < 2 ^ 32 - 1) :
    ∃ c, n.client = some c ∧
      ((∀ x ∈ c.subscribes, x.1 = max first (1 + highest x.2)) ↔ first = 1 ∨ ∀ x ∈ c.subscribes.tail, x.2 ≠ []) ∧
      ((first = 1 ∨ ∀ x ∈ c.subscribes.tail, x.2 ≠ []) → ∀ q ∈ c.handled, first ≤ q) ∧
      c.handled.Pairwise (· < ·) := by
  have hconnected := MdClient.account_connect hfirst stats
  obtain ⟨c, _, _, hclient, base, h, -, -⟩ := Net.run_account (MdClient.program_keeps first) hbacklog hbefore
    ⟨first, hconnected, max_eq_left hfirst, rfl⟩ rfl hhead hrun hfew
  -- unless a connection broke early, the stream of the client begins where it was told to
  have hbase : (first = 1 ∨ ∀ x ∈ c.subscribes.tail, x.2 ≠ []) → base = first := by
    intro hheard
    rcases h.began with heq | ⟨hone, x, hx, hsilent⟩
    · exact heq
    · rcases hheard with rfl | hheard
      · exact hone
      · exact absurd hsilent (hheard x hx)
  have hcons : c.subscribes = (first, []) :: c.subscribes.tail := List.eq_cons_of_mem_head? h.opening
  refine ⟨c, hclient, ⟨fun hall => ?_, fun hheard x hx => ?_⟩, fun hheard q hq => ?_, h.follows.increasing⟩
  · by_cases hone : first = 1
    · exact Or.inl hone
    · refine Or.inr fun x hx hsilent => hone ?_
      have hright := hall x (List.mem_of_mem_tail hx)
      rw [(h.later x hx).1, hsilent] at hright
      change 1 = max first 1 at hright
      omega
  · rw [hcons] at hx
    rcases List.mem_cons.1 hx with rfl | hx
    · exact (max_eq_left hfirst).symm
    · obtain ⟨hlater, hmore⟩ := h.later x hx
      rw [hlater, max_eq_right]
      rcases hheard with rfl | hheard
      · exact Nat.le_add_right _ _
      · rw [← hbase (Or.inr hheard)]
        exact hmore (hheard x hx)
  · rw [← hbase hheard]
    exact (h.follows.handled q hq).1

/-- A client that begins at frame 2 of two. Its first connection breaks after that frame, and it goes on with frame 3. -/
theorem run_subscribes_resumed :
    let top := fun bid => Message.top 0 bid (-1) 5 0
    let before : List Publisher.Action := [.publish (top 10), .publish (top 11)]
    let actions : List Net.Action := [.accept 7, .call (.onReadable 7 [.bytes (makeSubscribe 2)]),
      .call (.flushAll 1 fun _ => [.wrote 100]), .deliver 100, .reconnect, .call (.publish (top 12)), .accept 8,
      .call (.onReadable 8 [.bytes (makeSubscribe 3)]), .call (.flushAll 2 fun _ => [.wrote 100]), .deliver 30, .deliver 30]
    ∃ n c, (start (Publisher.run {} before) 2 false).run actions = some n ∧ n.client = some c ∧
      (c.subscribes, c.handled) = ([(2, []), (3, [2])], [2, 3]) ∧
      (∀ x ∈ c.subscribes, x.1 = max 2 (1 + highest x.2)) ∧ ∀ q ∈ c.handled, 2 ≤ q := by
  intro top before actions
  have hlength : ((start (Publisher.run {} before) 2 false).run actions).map
      (fun n => n.server.1.published.length) = some 3 := by decide +kernel
  have hclient : ((start (Publisher.run {} before) 2 false).run actions).bind
      (fun n => n.client.map fun c => (c.subscribes, c.handled)) = some ([(2, []), (3, [2])], [2, 3]) := by
    decide +kernel
  obtain ⟨n, hrun, hseen⟩ := Option.bind_eq_some_iff.1 hclient
  have hfew : n.server.1.published.length < 2 ^ 32 - 1 := by
    rw [hrun, Option.map_some] at hlength
    rw [Option.some.inj hlength]
    decide
  obtain ⟨c, hc, hiff, hhandled, -⟩ := run_subscribes_iff {} (by decide) before (by decide) 2 false (by decide)
    (by decide) actions n hrun hfew
  rw [hc] at hseen
  have hdata : (c.subscribes, c.handled) = ([(2, []), (3, [2])], [2, 3]) := Option.some.inj hseen
  have hsubscribes : c.subscribes = [(2, []), (3, [2])] := congrArg Prod.fst hdata
  have hheard : ∀ x ∈ c.subscribes.tail, x.2 ≠ [] := by
    rw [hsubscribes]
    decide
  exact ⟨n, c, hrun, hc, hdata, hiff.2 (Or.inr hheard), hhandled (Or.inr hheard)⟩

/-- A client that begins at frame 2, when one frame was published. Its first connection breaks before anything has arrived. Then it asks for frame 1, and handles it. -/
theorem run_subscribes_early :
    let before : List Publisher.Action := [.publish (.top 0 10 (-1) 5 0)]
    let actions : List Net.Action := [.reconnect, .accept 7, .call (.onReadable 7 [.bytes (makeSubscribe 1)]),
      .call (.flushAll 1 fun _ => [.wrote 100]), .deliver 100]
    2 ≤ (Publisher.run {} before).1.ring.head + 1 ∧
      ∃ n c, (start (Publisher.run {} before) 2 false).run actions = some n ∧ n.server.1.published.length < 2 ^ 32 - 1 ∧
        n.client = some c ∧ ¬ (∀ x ∈ c.subscribes, x.1 = max 2 (1 + highest x.2)) ∧ ∃ q ∈ c.handled, q < 2 := by
  intro before actions
  have hclient : ((start (Publisher.run {} before) 2 false).run actions).bind
      (fun n => n.client.map fun c => (n.server.1.published.length, c.subscribes, c.handled)) =
        some (1, [(2, []), (1, [])], [1]) := by decide +kernel
  obtain ⟨n, hrun, hseen⟩ := Option.bind_eq_some_iff.1 hclient
  obtain ⟨c, hc, hdata⟩ := Option.map_eq_some_iff.1 hseen
  rw [Prod.mk.injEq, Prod.mk.injEq] at hdata
  obtain ⟨hlength, hsubscribes, hhandled⟩ := hdata
  refine ⟨by decide, n, c, hrun, ?_, hc, ?_, 1, ?_, by decide⟩
  · rw [hlength]
    decide
  · rw [hsubscribes]
    decide
  · rw [hhandled]
    exact List.mem_singleton_self 1

end MdNet

end Matchbox
