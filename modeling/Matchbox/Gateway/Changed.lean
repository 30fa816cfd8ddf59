import Matchbox.Gateway.Life
import Matchbox.Stream.Interest

/-!
# What the gateway does to its connections

Frames are queued by parse errors, by engine events, by a late Subscribe and by the pumps, and sessions come and go while they are listed in `dirty_`. `Server.Changed` lists everything that can happen to the connections in between two accepts: a session is replaced or closed, the publisher does something, or nothing. It says what this tells the Poller, what becomes of `dirty_` and of the tables of descriptors. Every function of the server but `accept_all` is a chain of such changes, and what holds of the connections at any moment is proved from these four cases.
-/

namespace Matchbox

open Wire Resumable

/-! ### One session -/

namespace Session

/-- What reading and sending may do to a session: bytes are queued only with the mark. -/
structure Marked (s s' : Session) : Prop where
  id : s'.id = s.id
  fd : s'.fd = s.fd
  wantWrite : s'.wantWrite = s.wantWrite
  conserved : s.toConn.Conserved → s'.toConn.Conserved
  quiet : s'.dirty = false → s.dirty = false ∧ s'.pending = s.pending

namespace Marked

variable {s s' s'' : Session}

theorem refl (s : Session) : s.Marked s := ⟨rfl, rfl, rfl, fun h => h, fun h => ⟨h, rfl⟩⟩

theorem trans (h : s.Marked s') (h' : s'.Marked s'') : s.Marked s'' where
  id := h'.id.trans h.id
  fd := h'.fd.trans h.fd
  wantWrite := h'.wantWrite.trans h.wantWrite
  conserved := h'.conserved ∘ h.conserved
  quiet := fun hdirty => by
    obtain ⟨hdirty', hpending'⟩ := h'.quiet hdirty
    obtain ⟨hclean, hpending⟩ := h.quiet hdirty'
    exact ⟨hclean, hpending'.trans hpending⟩

theorem send (s : Session) (origin : Origin) (m : Message) : s.Marked (s.send origin m) where
  id := rfl
  fd := rfl
  wantWrite := rfl
  conserved := fun h => ⟨(h.append (m.make s.outSeq)).bytes, (h.append (m.make s.outSeq)).txOff_le⟩
  quiet := fun hdirty => by cases hdirty

theorem moved (s : Session) (seq : Nat) (rx : List UInt8) : s.Marked (s.moved seq rx) where
  id := rfl
  fd := rfl
  wantWrite := rfl
  conserved := fun h => ⟨h.bytes, h.txOff_le⟩
  quiet := fun hdirty => ⟨hdirty, rfl⟩

theorem reading : Reading Marked := ⟨refl, trans, fun s => send s .gateway, moved⟩

end Marked

/-- A session that the gateway looks after: it is registered, and armed unless it is marked and listed. -/
structure Watched (poller : Poller) (listed : List Nat) (s : Session) : Prop where
  conserved : s.toConn.Conserved
  registered : s.toConn.Registered poller
  armed : s.dirty = false → s.toConn.Armed
  listed : s.dirty = true → s.id ∈ listed

variable {poller poller' : Poller} {listed listed' : List Nat} {s s' : Session}

theorem Watched.congr (h : s.Watched poller listed) (hpoller : poller' s.fd = poller s.fd)
    (hlisted : s.id ∈ listed → s.id ∈ listed') : s.Watched poller' listed' where
  conserved := h.conserved
  registered := hpoller.trans h.registered
  armed := h.armed
  listed := hlisted ∘ h.listed

theorem Watched.marked (h : s.Watched poller listed) (hmarked : s.Marked s') :
    s'.Watched poller (if s.dirty = false ∧ s'.dirty then listed ++ [s'.id] else listed) where
  conserved := hmarked.conserved h.conserved
  registered := by
    rw [Conn.Registered, hmarked.fd, hmarked.wantWrite]
    exact h.registered
  armed := by
    intro hdirty
    obtain ⟨hclean, hpending⟩ := hmarked.quiet hdirty
    rw [Conn.Armed, hmarked.wantWrite, hpending]
    exact h.armed hclean
  listed := by
    intro hdirty
    cases hbefore : s.dirty with
    | false =>
        rw [if_pos ⟨rfl, hdirty⟩]
        exact List.mem_append_right listed (List.mem_singleton_self _)
    | true =>
        rw [if_neg (fun hcon => by cases hcon.1), hmarked.id]
        exact h.listed hbefore

/-- After `flush_and_arm` has succeeded nothing is owed to the session. -/
theorem Watched.flushAndArm (h : s.Watched poller listed) (writes : List WriteResult) (dirty : Bool)
    (hok : (s.toConn.flushAndArm poller writes).2.2 = true) (hlisted : dirty = true → s.id ∈ listed') :
    Watched (s.toConn.flushAndArm poller writes).2.1 listed'
      { s with toConn := (s.toConn.flushAndArm poller writes).1, dirty := dirty } where
  conserved := h.conserved.flushAndArm poller writes
  registered := Conn.flushAndArm_registered h.registered writes
  armed := fun _ => Conn.flushAndArm_armed s.toConn poller writes hok
  listed := hlisted

end Session

/-! ### The tables -/

namespace Server

def sidOf (sv : Server) (fd : Nat) : Nat := sv.sidByFd.getD fd 0

/-- The tables of `sv'` are those of `sv` with one entry written. -/
structure Tracks (sv sv' : Server) (fd : Nat) (kind : Kind) (sid : Nat) : Prop where
  kindOf : sv'.kindOf = Function.update sv.kindOf fd kind
  sidOf : sv.kindByFd.length = sv.sidByFd.length → sv'.sidOf = Function.update sv.sidOf fd sid
  length : sv.kindByFd.length = sv.sidByFd.length → sv'.kindByFd.length = sv'.sidByFd.length
  grown : sv.kindByFd.length ≤ sv'.kindByFd.length
  inRange : fd < sv'.kindByFd.length

theorem length_grow {α : Type} (xs : List α) (size : Nat) (blank : α) : (grow xs size blank).length = max xs.length size := by
  rw [grow, List.length_append, List.length_replicate]
  omega

theorem getD_grow {α : Type} (xs : List α) (size : Nat) (blank : α) (i : Nat) :
    (grow xs size blank).getD i blank = xs.getD i blank := by
  rw [grow, List.getD_eq_getElem?_getD, List.getD_eq_getElem?_getD, List.getElem?_append]
  split
  · rfl
  · rename_i hout
    rw [List.getElem?_eq_none (Nat.not_lt.1 hout), List.getElem?_replicate]
    split <;> rfl

theorem getD_set {α : Type} (xs : List α) {i : Nat} (hi : i < xs.length) (x blank : α) :
    (fun j => (xs.set i x).getD j blank) = Function.update (fun j => xs.getD j blank) i x := by
  funext j
  rw [Function.update_apply, List.getD_eq_getElem?_getD, List.getElem?_set]
  by_cases heq : j = i
  · subst heq
    rw [if_pos rfl, if_pos rfl, if_pos hi]
    rfl
  · rw [if_neg (Ne.symm heq), if_neg heq]
    exact (List.getD_eq_getElem?_getD ..).symm

theorem tracks_tracked {sv sv' : Server} {fd sid : Nat} {kind : Kind}
    (hkinds : sv'.kindByFd = (tracked sv.kindByFd sv.sidByFd fd kind sid).1)
    (hsids : sv'.sidByFd = (tracked sv.kindByFd sv.sidByFd fd kind sid).2) : sv.Tracks sv' fd kind sid := by
  have hkindOf : sv'.kindOf = fun i => sv'.kindByFd.getD i .none := rfl
  have hsidOf : sv'.sidOf = fun i => sv'.sidByFd.getD i 0 := rfl
  rw [tracked] at hkinds hsids
  split at hkinds
  · rename_i hout
    rw [if_pos hout] at hsids
    have hgrown : max sv.kindByFd.length (fd + 64) = (grow sv.kindByFd (fd + 64) Kind.none).length :=
      (length_grow _ _ _).symm
    have hin : fd < (grow sv.kindByFd (fd + 64) Kind.none).length := by omega
    refine ⟨?_, fun hlength => ?_, fun hlength => ?_, ?_, ?_⟩
    · rw [hkindOf, hkinds, getD_set _ hin, funext (getD_grow sv.kindByFd (fd + 64) Kind.none)]
      rfl
    · have hsid : fd < (grow sv.sidByFd (fd + 64) 0).length := by
        rw [length_grow]
        omega
      rw [hsidOf, hsids, getD_set _ hsid, funext (getD_grow sv.sidByFd (fd + 64) 0)]
      rfl
    · rw [hkinds, hsids, List.length_set, List.length_set, length_grow, length_grow, hlength]
    · rw [hkinds, List.length_set]
      omega
    · rw [hkinds, List.length_set]
      exact hin
  · rename_i hout
    rw [if_neg hout] at hsids
    have hin := Nat.not_le.1 hout
    refine ⟨?_, fun hlength => ?_, fun hlength => ?_, ?_, ?_⟩
    · rw [hkindOf, hkinds, getD_set _ hin]
      rfl
    · rw [hsidOf, hsids, getD_set _ (hlength ▸ hin)]
      rfl
    · rw [hkinds, hsids, List.length_set, List.length_set, hlength]
    · rw [hkinds, List.length_set]
    · rw [hkinds, List.length_set]
      exact hin

/-- The tables are left alone. -/
structure SameTables (sv sv' : Server) : Prop where
  kinds : sv'.kindByFd = sv.kindByFd
  sids : sv'.sidByFd = sv.sidByFd

/-! ### One change -/

/-- What a change of the session `s` has to do with the others: the Poller is told about its descriptor only, and no other session is taken off the list. -/
structure Spares (sv sv' : Server) (sid : Nat) (s : Session) : Prop where
  publisher : sv'.publisher = sv.publisher
  poller : ∀ fd, fd ≠ s.fd → sv'.poller fd = sv.poller fd
  dirty : ∀ sid', sid' ≠ sid → sid' ∈ sv.dirty → sid' ∈ sv'.dirty

inductive Changed (sv : Server) : Server → Prop
  | kept {sv' : Server} {sid : Nat} {s s' : Session} (hs : sv.sessions sid = some s) (hid : s'.id = s.id)
      (hfd : s'.fd = s.fd) (hwatched : s.Watched sv.poller sv.dirty → s'.Watched sv'.poller sv'.dirty)
      (hsessions : sv'.sessions = Function.update sv.sessions s.id (some s')) (hspares : Spares sv sv' sid s)
      (htables : SameTables sv sv') : Changed sv sv'
  | closed {sv' : Server} {sid : Nat} {s : Session} (hs : sv.sessions sid = some s)
      (hsessions : sv'.sessions = Function.update sv.sessions s.id none) (hspares : Spares sv sv' sid s)
      (htracks : Tracks sv sv' s.fd .none 0) : Changed sv sv'
  | published {sv' : Server} (a : Publisher.Action) (hold : ∀ fd, a ≠ .subscribe fd)
      (hpublisher : (sv'.publisher, sv'.poller) = Publisher.step (sv.publisher, sv.poller) a)
      (hsessions : sv'.sessions = sv.sessions) (hdirty : sv'.dirty = sv.dirty) (htables : SameTables sv sv') :
      Changed sv sv'
  /-- Only identifiers that are nobody's are taken off the list. -/
  | other {sv' : Server} (hpublisher : sv'.publisher = sv.publisher) (hpoller : sv'.poller = sv.poller)
      (hsessions : sv'.sessions = sv.sessions)
      (hdirty : ∀ sid, (sv.sessions sid).isSome → sid ∈ sv.dirty → sid ∈ sv'.dirty) (htables : SameTables sv sv') :
      Changed sv sv'

abbrev Changes : Server → Server → Prop := Relation.ReflTransGen Changed

section Functions

variable {sv sv' : Server} {sid : Nat} {s s' : Session}

theorem remove_other (hfd : s'.fd = s.fd) {poller : Poller} (hpoller : ∀ fd, fd ≠ s.fd → poller fd = sv.poller fd)
    (fd : Nat) (hne : fd ≠ s.fd) : poller.remove s'.fd fd = sv.poller fd := by
  rw [hfd, poller.remove_of_ne hne, hpoller fd hne]

theorem Served.changed (h : sv.Served sv') : sv.Changed sv' := by
  cases h with
  | @flushed sid s hs writes hok =>
      have hflushed := s.flushed_flushAndArm sv.poller writes s.dirty
      exact .kept hs hflushed.id hflushed.fd (fun hwatched => hwatched.flushAndArm writes s.dirty hok hwatched.listed) rfl
        ⟨rfl, fun fd hne => s.toConn.flushAndArm_other sv.poller writes hne, fun _ _ hmem => hmem⟩ ⟨rfl, rfl⟩
  | @relieved sid s rest hlisted hs writes hok hlimit =>
      have hflushed := s.flushed_flushAndArm sv.poller writes false
      refine .kept hs hflushed.id hflushed.fd (fun hwatched => hwatched.flushAndArm writes false hok Bool.noConfusion) rfl
        ⟨rfl, fun fd hne => s.toConn.flushAndArm_other sv.poller writes hne, fun sid' hne hmem => ?_⟩ ⟨rfl, rfl⟩
      rw [hlisted] at hmem
      exact (List.mem_cons.1 hmem).resolve_left hne
  | @closed sid s s' poller rest hs hflushed hpoller hlisted =>
      rw [closeSession_eq]
      refine .closed hs (by rw [hflushed.id]) ⟨rfl, remove_other hflushed.fd hpoller, fun sid' hne hmem => ?_⟩
        (hflushed.fd ▸ tracks_tracked rfl rfl)
      rcases hlisted with hsame | hnext
      · rwa [← hsame]
      · rw [hnext] at hmem
        exact (List.mem_cons.1 hmem).resolve_left hne
  | @skipped sid rest hlisted hs =>
      refine .other rfl rfl rfl (fun sid' hsome hmem => ?_) ⟨rfl, rfl⟩
      rw [hlisted] at hmem
      refine (List.mem_cons.1 hmem).resolve_left ?_
      rintro rfl
      rw [hs] at hsome
      cases hsome

theorem Serves.changes (h : sv.Serves sv') : sv.Changes sv' :=
  Relation.ReflTransGen.mono (fun _ _ hserved => hserved.changed) sv sv' h

theorem resend_changed (hs : sv.sessions sid = some s) (hmarked : s.Marked s') : sv.Changed (sv.resend s s') := by
  refine .kept hs hmarked.id hmarked.fd (fun hwatched => hwatched.marked hmarked) ?_ ⟨rfl, fun _ _ => rfl, ?_⟩ ⟨rfl, rfl⟩
  · rw [← hmarked.id]
    rfl
  · intro sid _ hmem
    rw [resend]
    dsimp only
    split
    · exact List.mem_append_left _ hmem
    · exact hmem

theorem Reads.changed {reads : List ReadResult} {r : Server × List Command × Bool} (h : Reads sv s reads r)
    (hs : sv.sessions sid = some s) : sv.Changed r.1 := by
  cases h with
  | failed htaken =>
      rw [closeSession_eq]
      exact .closed hs rfl ⟨rfl, remove_other rfl fun _ _ => rfl, fun _ _ hmem => hmem⟩ (tracks_tracked rfl rfl)
  | parsed htaken hparse hrx => exact resend_changed hs (Session.Marked.reading.parsed s _ _ _)

theorem call_changed (sv : Server) {a : Publisher.Action} (ha : ∀ fd, a ≠ .subscribe fd) : sv.Changed (sv.call a) :=
  .published a ha rfl rfl rfl ⟨rfl, rfl⟩

theorem Noted.changes {e : Event} (h : sv.Noted e sv') : sv.Changes sv' := by
  have hdrained : sv.Changes { sv with drained := sv.drained ++ [e] } :=
    .single (.other rfl rfl rfl (fun _ _ hmem => hmem) ⟨rfl, rfl⟩)
  cases h with
  | published hm => exact hdrained.tail (call_changed _ fun _ => Publisher.Action.noConfusion)
  | sent hmarket hs hm => exact hdrained.tail (resend_changed hs (.send _ .engine _))
  | dropped hmarket hnone => exact hdrained

end Functions

end Server

end Matchbox
