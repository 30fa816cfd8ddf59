import Matchbox.Gateway.Effects

/-!
# What the gateway does on its own

Between two engine events the gateway reads, parses, flushes and closes. `Session.Kept` says what none of this changes about a session: whose it is, what the engine has sent on it, and that its frames are numbered without a gap. `Server.Tended` is one such change of one session, and every function of the server but `accept_all` and `on_event` is a chain of them.
-/

namespace Matchbox

open Wire Resumable

/-! ### Whose commands -/

namespace Wire

theorem frameReply_session {session : Nat} {frame : List UInt8} {c : Command} (h : frameReply session frame = .submit c) :
    c.session = session := by
  rw [frameReply] at h
  split at h
  · rw [NewOrder.reply] at h
    split at h
    · cases h
      rfl
    · cases h
  · cases h
    rfl
  · cases h
    rfl
  · cases h

theorem Looked.reply {session seq seq' n : Nat} {bytes : List UInt8} {reply : Reply}
    (h : Looked session seq bytes (.item seq' reply n)) : reply = frameReply session (bytes.take n) := by
  cases h
  rfl

theorem parse_session {session seq seq' : Nat} {bytes rest : List UInt8} {outs : List Reply} {alive : Bool}
    (h : Parse (nextFrame session) seq bytes outs seq' rest alive) {c : Command} (hc : .submit c ∈ outs) :
    c.session = session := by
  induction h with
  | more hnext => cases hc
  | @item seq _ _ bytes _ _ _ _ _ hnext hrest ih =>
      rcases List.mem_cons.1 hc with rfl | hmem
      · have hlooked := nextFrame_looked session seq bytes
        rw [hnext] at hlooked
        exact frameReply_session hlooked.reply.symm
      · exact ih hmem
  | @stop seq bytes out hnext =>
      have hlooked := nextFrame_looked session seq bytes
      rw [hnext] at hlooked
      cases hlooked with
      | malformed h hok => cases hc
      | wrongSeq h hok hlen hseq => simp at hc

theorem parse_command_session {session seq seq' : Nat} {bytes rest : List UInt8} {outs : List Reply} {alive : Bool}
    (h : Parse (nextFrame session) seq bytes outs seq' rest alive) {c : Command} (hc : c ∈ outs.filterMap Reply.command?) :
    c.session = session := by
  obtain ⟨reply, hreply, hcommand⟩ := List.mem_filterMap.1 hc
  cases reply with
  | reject tag reason => cases hcommand
  | submit c' =>
      cases hcommand
      exact parse_session h hreply

end Wire

/-! ### One session -/

namespace Session

/-- The frames appended to a session are its messages under the numbers 1, 2, 3, ... modulo `2 ^ 32`, and every byte of them was sent or is pending. -/
structure Numbered (s : Session) : Prop where
  conserved : s.toConn.Conserved
  outSeq : s.outSeq = (1 + s.queued.length) % word32
  appended : s.appended = numbered 1 (s.queued.map Prod.snd)

/-- The messages queued because of engine events. -/
def fromEngine (s : Session) : List Message := (s.queued.filter fun x => x.1 = .engine).map Prod.snd

/-- What a session keeps while no engine event is sent on it. -/
structure Kept (s s' : Session) : Prop where
  id : s'.id = s.id
  fromEngine : s'.fromEngine = s.fromEngine
  numbered : s.Numbered → s'.Numbered

theorem numbered_accepted (fd id : Nat) : (accepted fd id).Numbered := ⟨⟨rfl, le_rfl⟩, rfl, rfl⟩

theorem Numbered.send {s : Session} (h : s.Numbered) (origin : Origin) (m : Message) : (s.send origin m).Numbered where
  conserved := ⟨(h.conserved.append (m.make s.outSeq)).bytes, (h.conserved.append (m.make s.outSeq)).txOff_le⟩
  outSeq := by
    change (s.outSeq + 1) % word32 = (1 + (s.queued ++ [(origin, m)]).length) % word32
    rw [h.outSeq, Nat.mod_add_mod, List.length_append]
    rfl
  appended := by
    change s.appended ++ [m.make s.outSeq] = numbered 1 ((s.queued ++ [(origin, m)]).map Prod.snd)
    rw [h.appended, h.outSeq, List.map_append, Wire.numbered, Wire.numbered, List.map_singleton, List.mapIdx_concat,
      List.length_map]

theorem Numbered.seq {s : Session} (h : s.Numbered) {i : Nat} {frame : List UInt8} (hframe : s.appended[i]? = some frame) :
    (Header.ofBytes frame).seq = (i + 1) % word32 := by
  rw [h.appended, Wire.numbered, List.getElem?_mapIdx, Option.map_eq_some_iff] at hframe
  obtain ⟨m, -, rfl⟩ := hframe
  rw [Message.make, Header.ofBytes_bytes]
  change (1 + i) % word32 % word32 = (i + 1) % word32
  rw [Nat.mod_mod, Nat.add_comm]

namespace Kept

variable {s s' s'' : Session}

theorem refl (s : Session) : s.Kept s := ⟨rfl, rfl, fun h => h⟩

theorem trans (h : s.Kept s') (h' : s'.Kept s'') : s.Kept s'' :=
  ⟨h'.id.trans h.id, h'.fromEngine.trans h.fromEngine, h'.numbered ∘ h.numbered⟩

theorem send (s : Session) (m : Message) : s.Kept (s.send .gateway m) where
  id := rfl
  fromEngine := by
    change ((s.queued ++ [(Origin.gateway, m)]).filter fun x => x.1 = .engine).map Prod.snd = _
    rw [List.filter_append, List.map_append]
    exact List.append_nil _
  numbered := fun h => h.send .gateway m

theorem flushed (h : s.Flushed s') : s.Kept s' := by
  obtain ⟨c, dirty, ⟨⟨tx, off, sent, want, rfl⟩, -, hconserved⟩, rfl⟩ := h
  exact ⟨rfl, rfl, fun h => ⟨hconserved h.conserved, h.outSeq, h.appended⟩⟩

theorem moved (s : Session) (seq : Nat) (rx : List UInt8) : s.Kept (s.moved seq rx) :=
  ⟨rfl, rfl, fun h => ⟨⟨h.conserved.bytes, h.conserved.txOff_le⟩, h.outSeq, h.appended⟩⟩

theorem reading : Reading Kept := ⟨refl, trans, send, moved⟩

end Kept

end Session

/-! ### The server -/

namespace Server

/-- Nothing was accepted, drained or published. -/
structure SameStream (sv sv' : Server) : Prop where
  drained : sv'.drained = sv.drained
  opened : sv'.opened = sv.opened
  nextSid : sv'.nextSid = sv.nextSid
  publisher : Publisher.SameRing sv.publisher sv'.publisher

theorem SameStream.trans {sv sv' sv'' : Server} (h : SameStream sv sv') (h' : SameStream sv' sv'') : SameStream sv sv'' :=
  ⟨h'.drained.trans h.drained, h'.opened.trans h.opened, h'.nextSid.trans h.nextSid, h.publisher.trans h'.publisher⟩

/-- One such change. -/
structure Tended (sv sv' : Server) : Prop where
  touched : sv.Touched Session.Kept sv'
  stream : SameStream sv sv'

/-- A chain of such changes. -/
abbrev Tends : Server → Server → Prop := Relation.ReflTransGen Tended

variable {sv sv' : Server}

theorem Tends.stream (h : sv.Tends sv') : SameStream sv sv' := by
  induction h with
  | refl => exact ⟨rfl, rfl, rfl, rfl, rfl, rfl⟩
  | tail _ hstep ih => exact ih.trans hstep.stream

theorem Served.stream (h : sv.Served sv') : SameStream sv sv' := by
  cases h with
  | flushed | relieved | skipped => exact ⟨rfl, rfl, rfl, rfl, rfl, rfl⟩
  | closed =>
      rw [closeSession_eq]
      exact ⟨rfl, rfl, rfl, rfl, rfl, rfl⟩

theorem Serves.tends (h : sv.Serves sv') : sv.Tends sv' :=
  Relation.ReflTransGen.mono (fun _ _ hserved => ⟨hserved.touched .flushed, hserved.stream⟩) sv sv' h

theorem Reads.tended {sid : Nat} {s : Session} {reads : List ReadResult} {r : Server × List Command × Bool}
    (h : Reads sv s reads r) (hs : sv.sessions sid = some s) : sv.Tended r.1 := by
  refine ⟨h.touched hs Session.Kept.reading, ?_⟩
  cases h with
  | failed =>
      rw [closeSession_eq]
      exact ⟨rfl, rfl, rfl, rfl, rfl, rfl⟩
  | parsed => exact ⟨rfl, rfl, rfl, rfl, rfl, rfl⟩

theorem Reads.session {s : Session} {reads : List ReadResult} {r : Server × List Command × Bool}
    (h : Reads sv s reads r) {c : Command} (hc : c ∈ r.2.1) : c.session = s.id := by
  cases h with
  | failed => cases hc
  | parsed _ hparse _ => exact parse_command_session hparse hc

variable (sv)

theorem call_tended {a : Publisher.Action} (ha : ∀ m, a ≠ .publish m) : sv.Tended (sv.call a) :=
  ⟨.other rfl rfl, rfl, rfl, rfl, Publisher.step_same (sv.publisher, sv.poller) a ha⟩

theorem onSubscriber_tends (ev : PollEvent) (reads : List ReadResult) (writes : List WriteResult) :
    sv.Tends (sv.onSubscriber ev reads writes) :=
  onSubscriber_chain (fun sv _ ha _ => sv.call_tended ha) sv ev reads writes

theorem flushMarketData_tended (now : Nat) (writes : Nat → List WriteResult) :
    sv.Tended (sv.flushMarketData now writes) := by
  rw [flushMarketData_eq]
  exact sv.call_tended fun _ => Publisher.Action.noConfusion

theorem subscribe_tended (fd : Nat) {kind : Kind} (hkind : kind ≠ .session) : sv.Tended (sv.acceptOne fd kind) := by
  rw [sv.subscribe_eq fd hkind]
  exact ⟨.other rfl rfl, rfl, rfl, rfl, Publisher.step_same (sv.publisher, sv.poller) (.subscribe fd)
    fun _ => Publisher.Action.noConfusion⟩

end Server

end Matchbox
