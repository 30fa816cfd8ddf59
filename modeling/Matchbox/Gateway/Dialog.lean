import Matchbox.Gateway.Life
import Matchbox.Gateway.Routing
import Matchbox.Wire.Python

/-!
# The two directions of one session

Reading its socket is the only thing that moves a session on in its input and the only thing that makes the gateway refuse a frame; everything else is `Beside` it. A client that numbers its requests has each of them replied to once it is complete, however its bytes are cut, and on a session without refusals everything queued came from the engine.
-/

namespace Matchbox

open Wire Resumable

/-! ### The requests of a client -/

namespace Wire

/-- The frames of requests with consecutive sequence numbers, modulo `2 ^ 32`. -/
def numberedRequests (seq : Nat) (rs : List Request) : List (List UInt8) :=
  rs.mapIdx fun i r => r.make ((seq + i) % word32)

theorem numberedRequests_append (seq : Nat) (rs more : List Request) :
    numberedRequests seq (rs ++ more) = numberedRequests seq rs ++ numberedRequests (seq + rs.length) more := by
  rw [numberedRequests, List.mapIdx_append]
  simp only [numberedRequests, Nat.add_assoc, Nat.add_comm rs.length]

theorem numberedRequests_cons {seq : Nat} (hseq : seq < word32) (r : Request) (rs : List Request) :
    numberedRequests seq (r :: rs) = r.make seq :: numberedRequests ((seq + 1) % word32) rs := by
  rw [numberedRequests, List.mapIdx_cons, Nat.add_zero, Nat.mod_eq_of_lt hseq]
  simp only [numberedRequests, Nat.mod_add_mod, Nat.add_assoc, Nat.add_comm 1]

theorem numbered_append (seq : Nat) (ms more : List Message) :
    numbered seq (ms ++ more) = numbered seq ms ++ numbered (seq + ms.length) more := by
  rw [numbered, List.mapIdx_append]
  simp only [numbered, Nat.add_assoc, Nat.add_comm ms.length]

theorem nextFrame_request (session : Nat) (r : Request) {seq : Nat} (hseq : seq < word32) {bytes back : List UInt8}
    (hbytes : bytes ++ back = r.make seq) (hback : back ≠ []) : nextFrame session seq bytes = .more := by
  have hlength := congrArg List.length hbytes
  have hpos := List.length_pos_iff.2 hback
  rw [List.length_append, r.length_make] at hlength
  by_cases hshort : bytes.length < headerSize
  · exact Looked.eq (.short hshort)
  · have hheader : Header.ofBytes bytes = ⟨r.type.size, r.type.code, kVersion, seq⟩ := by
      rw [← r.header_make hseq, ← hbytes, Header.ofBytes_append back (Nat.not_lt.1 hshort)]
    have hok : (Header.mk r.type.size r.type.code kVersion seq).ok = true := by
      cases r <;> rfl
    refine Looked.eq (.waiting (Nat.not_lt.1 hshort) (hheader ▸ hok) ?_)
    rw [hheader]
    change bytes.length < r.type.size
    omega

/-- Of a stream of requests that has come in up to a point, the gateway replies to the complete ones and refuses nothing for its form. -/
theorem parse_requests {session : Nat} {rs : List Request} (hrs : ∀ r ∈ rs, r.InRange) {seq : Nat} (hseq : seq < word32)
    {bytes back rest : List UInt8} {outs : List Reply} {seq' : Nat} {alive : Bool}
    (hbytes : bytes ++ back = (numberedRequests seq rs).flatten)
    (h : Parse (nextFrame session) seq bytes outs seq' rest alive) :
    alive = true ∧ ∃ done todo, rs = done ++ todo ∧ outs = done.map (Request.reply session) ∧
      (back = [] → todo = []) := by
  induction rs generalizing seq bytes outs with
  | nil =>
      obtain ⟨rfl, rfl⟩ := List.append_eq_nil_iff.1 hbytes
      have hmore : nextFrame session seq [] = .more := Looked.eq (.short (Nat.zero_lt_succ 7))
      obtain ⟨rfl, -, -, rfl⟩ := h.of_more hmore
      exact ⟨rfl, [], [], rfl, rfl, fun _ => rfl⟩
  | cons r rs ih =>
      rw [numberedRequests_cons hseq, List.flatten_cons] at hbytes
      have hpre : bytes <+: r.make seq ++ (numberedRequests ((seq + 1) % word32) rs).flatten := ⟨back, hbytes⟩
      by_cases hshort : bytes.length < (r.make seq).length
      · obtain ⟨more, hmake⟩ := List.prefix_of_prefix_length_le hpre (List.prefix_append _ _) hshort.le
        have hmore : nextFrame session seq bytes = .more := by
          apply nextFrame_request session r hseq hmake
          rintro rfl
          rw [← hmake, List.append_nil] at hshort
          exact Nat.lt_irrefl _ hshort
        obtain ⟨rfl, -, -, rfl⟩ := h.of_more hmore
        refine ⟨rfl, [], r :: rs, rfl, rfl, fun hback => ?_⟩
        subst hback
        rw [List.append_nil] at hbytes
        rw [hbytes, List.length_append] at hshort
        omega
      · obtain ⟨more, rfl⟩ := List.prefix_of_prefix_length_le (List.prefix_append _ _) hpre (Nat.not_lt.1 hshort)
        rw [List.append_assoc] at hbytes
        have hitem := nextFrame_frame session r.type hseq (Eq.refl (r.make seq)) (r.length_make seq) more
        rw [Request.frameReply_make (hrs r List.mem_cons_self) session hseq] at hitem
        obtain ⟨outs, rfl, hrest⟩ := h.of_item hitem
        rw [List.drop_left] at hrest
        obtain ⟨halive, done, todo, rfl, rfl, hall⟩ := ih (fun r' hr' => hrs r' (List.mem_cons_of_mem r hr'))
          (Nat.mod_lt _ (by decide)) (List.append_cancel_left hbytes) hrest
        exact ⟨halive, r :: done, todo, rfl, rfl, hall⟩

end Wire

namespace Session

theorem queued_eq_fromEngine {s : Session} (h : s.refused = []) : s.queued.map Prod.snd = s.fromEngine := by
  have hall : s.queued.filter (fun x => x.1 = .engine) = s.queued := by
    rw [List.filter_eq_self]
    intro x hx
    rw [refused, List.map_eq_nil_iff, List.filter_eq_nil_iff] at h
    have horigin := h x hx
    cases hx : x.1 with
    | engine => rfl
    | gateway => exact absurd (decide_eq_true hx) horigin
  rw [fromEngine, hall]

theorem refused_act (s : Session) (reply : Reply) : (s.act reply).1.refused = s.refused ++ reply.message?.toList := by
  cases reply with
  | submit c => exact (List.append_nil _).symm
  | reject tag reason =>
      change ((s.queued ++ [(Origin.gateway, Message.reject tag reason)]).filter fun x => x.1 = .gateway).map Prod.snd = _
      rw [List.filter_append, List.map_append]
      rfl

theorem refused_react (s : Session) (replies : List Reply) :
    (s.react replies).refused = s.refused ++ replies.filterMap Reply.message? := by
  induction replies generalizing s with
  | nil => exact (List.append_nil _).symm
  | cons reply replies ih =>
      rw [react, ih, refused_act, List.append_assoc]
      cases reply <;> rfl

theorem refused_parsed (s : Session) (replies : List Reply) (seq : Nat) (rx : List UInt8) :
    (s.parsed replies seq rx).refused = s.refused ++ replies.filterMap Reply.message? :=
  s.refused_react replies

theorem sent_react (s : Session) (replies : List Reply) : (s.react replies).sent = s.sent := by
  induction replies generalizing s with
  | nil => rfl
  | cons reply replies ih =>
      rw [react, ih]
      cases reply <;> rfl

theorem sent_parsed (s : Session) (replies : List Reply) (seq : Nat) (rx : List UInt8) :
    (s.parsed replies seq rx).sent = s.sent :=
  s.sent_react replies

end Session

namespace Server

variable (sv : Server) {sid : Nat} {s : Session}

theorem onSubscriber_asides (ev : PollEvent) (reads : List ReadResult) (writes : List WriteResult) :
    sv.Asides (sv.onSubscriber ev reads writes) :=
  onSubscriber_chain (fun _ _ _ _ => .other rfl rfl) sv ev reads writes

theorem hangUp_sessions (hkeyed : sv.Keyed) (sid : Nat) (writes : List WriteResult) :
    (sv.hangUp sid writes).sessions sid = none := by
  rw [hangUp]
  cases hs : sv.sessions sid with
  | none => exact hs
  | some s =>
      obtain rfl := hkeyed sid s hs
      dsimp only
      rw [closeSession_eq]
      exact Function.update_self ..

theorem Reads.beside {r : Server × List Command × Bool} {reads : List ReadResult} (h : Reads sv s reads r)
    (hne : sid ≠ s.id) : Beside sid sv r.1 := by
  cases h with
  | failed htaken =>
      rw [closeSession_eq]
      exact .of_ne hne rfl fun _ hx => List.mem_append_left _ hx
  | @parsed outs seq rest rx alive htaken hparse hrx =>
      exact .of_ne hne (sv.resend_parsed s outs seq rx) fun _ h => h

end Server

end Matchbox
