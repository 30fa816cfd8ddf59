import Matchbox.Safety.Shape

/-!
# Verdicts

Accepted and Rejected are the events that a client counts on for every order it sends. A command leads to at most one of them, as its direct response and with its tag, and a New always does. So a session that only sends New commands is told the verdicts on them one by one, in the order in which it sent them, whatever all other sessions do.
-/

namespace Matchbox

/-- The answer to an order: Accepted or Rejected. -/
def Event.isVerdict (e : Event) : Bool := e.kind = .accepted ∨ e.kind = .rejected

/-- The verdicts told to a session, by tag. -/
def verdicts (sid : Nat) (events : List Event) : List Nat :=
  (events.filter fun e => e.isVerdict ∧ e.session = sid).map fun e => e.tag

/-- The commands of a session, by tag. -/
def tagsOf (sid : Nat) (cmds : List Command) : List Nat := (cmds.filter fun c => c.session = sid).map fun c => c.tag

section Lists

variable {sid : Nat}

theorem verdicts_append (events more : List Event) :
    verdicts sid (events ++ more) = verdicts sid events ++ verdicts sid more := by
  rw [verdicts, List.filter_append, List.map_append]
  rfl

theorem verdicts_eq_nil {events : List Event} (h : ∀ e ∈ events, e.isVerdict = false) : verdicts sid events = [] := by
  rw [verdicts, List.map_eq_nil_iff, List.filter_eq_nil_iff]
  intro e he
  simp [h e he]

theorem tagsOf_append (cmds more : List Command) : tagsOf sid (cmds ++ more) = tagsOf sid cmds ++ tagsOf sid more := by
  rw [tagsOf, List.filter_append, List.map_append]
  rfl

end Lists

section Commands

variable {now : Nat} {c : Command} {w w' : Ledger} {log : List Emission}

/-- The direct response to a New carries its tag, and so does every reject. -/
theorem Processed.tag (h : Processed now c w w' log) :
    ∀ e ∈ (log.map Emission.event).head?, e.isVerdict = true → e.tag = c.tag := by
  cases h with
  | refused hrefused hidle =>
      intro e he _
      cases he
      rfl
  | @accepted i w₁ log hnew hadmitted hmatched =>
      intro e he _
      cases he
      have hslot : w₁.e.pool.slots i = c.order (w.e.pool.slots i).gen i := by rw [hadmitted.slots', Function.update_self]
      exact (by rw [hslot]; rfl : (w₁.e.pool.slots i).tag = c.tag)
  | cancelled hkind howned htaken hfreed =>
      intro e he hverdict
      cases he
      cases hverdict
  | reduced hreplaces hprice hqty hreduced =>
      intro e he hverdict
      cases he
      cases hverdict
  | replaced hreplaces hmoves htaken hrepriced hmatched =>
      intro e he hverdict
      cases he
      cases hverdict

theorem Answer.verdicts_rest {e e' : Engine} {direct : Event} {triples : List Triple} {killed tops : List Event}
    (h : Answer e e' c direct triples killed tops) :
    ∀ ev ∈ triples.flatMap Triple.events ++ killed ++ tops, ev.isVerdict = false := by
  have hkind : ∀ ev : Event, ev.kind = .fill ∨ ev.kind = .trade ∨ ev.kind = .cancelled ∨ ev.kind = .top →
      ev.isVerdict = false := by
    intro ev hev
    rcases hev with hev | hev | hev | hev <;> simp [Event.isVerdict, hev]
  intro ev hev
  apply hkind
  rcases List.mem_append.1 hev with hev | hev
  · rcases List.mem_append.1 hev with hev | hev
    · obtain ⟨t, -, hmem⟩ := List.mem_flatMap.1 hev
      have hmaker := t.maker_kind.1
      have htaker := t.taker_kind.1
      have htrade := t.trade_kind
      simp only [Triple.events, List.mem_cons, List.not_mem_nil, or_false] at hmem
      rcases hmem with rfl | rfl | rfl
      · exact .inl hmaker
      · exact .inl htaker
      · exact .inr (.inl htrade)
    · exact .inr (.inr (.inl (h.killed_taker ev hev).1))
  · exact .inr (.inr (.inr (h.tops_kind ev hev)))

/-- A session that only sends New commands gets one verdict for each of its commands, and none for others'. -/
theorem Ledger.verdicts_process (w : Ledger) (hloose : w.loose = []) (now : Nat) {c : Command} {sid : Nat}
    (hnew : c.session = sid → c.kind = .new) :
    verdicts sid ((w.e.process now c).2.map Emission.event) = tagsOf sid [c] := by
  obtain ⟨w', log, tops, hprocessed, hw', hlog, hreported⟩ := w.process_reported hloose now c
  obtain ⟨direct, triples, killed, hshape, hanswer⟩ := hprocessed.answer hloose (tops.map Emission.event)
    (by rw [List.length_map]; exact hreported.length_le) fun ev hev => by
      obtain ⟨t, ht, rfl⟩ := List.mem_map.1 hev
      exact (hreported.isTop t ht).1
  have htag := hprocessed.tag direct (by rw [hshape]; rfl)
  have hevents : (w.e.process now c).2.map Emission.event =
      direct :: (triples.flatMap Triple.events ++ killed ++ tops.map Emission.event) := by
    rw [hlog, List.map_append, hshape, List.cons_append]
  rw [hevents, ← List.singleton_append, verdicts_append, verdicts_eq_nil hanswer.verdicts_rest, List.append_nil, verdicts,
    tagsOf]
  by_cases hsid : c.session = sid
  · have hverdict : direct.isVerdict = true := by
      rcases hanswer.kind with hkind | hkind
      · rw [hnew hsid] at hkind
        simp [Event.isVerdict, hkind, Command.Kind.done]
      · simp [Event.isVerdict, hkind]
    have hdirect : direct.session = sid := hanswer.session.trans hsid
    simp [hverdict, hdirect, hsid, htag hverdict]
  · have hdirect : direct.session ≠ sid := fun heq => hsid (hanswer.session.symm.trans heq)
    simp [hdirect, hsid]

end Commands

/-- Over a whole run: the verdicts told to the session are those on its commands, in order. -/
theorem Ledger.verdicts_log (cmds : List (Nat × Command)) (w : Ledger) (hloose : w.loose = []) {sid : Nat}
    (hnew : ∀ x ∈ cmds, x.2.session = sid → x.2.kind = .new) :
    verdicts sid ((w.e.log cmds).map Emission.event) = tagsOf sid (cmds.map Prod.snd) := by
  induction cmds generalizing w with
  | nil => rfl
  | cons cmd cmds ih =>
      obtain ⟨now, c⟩ := cmd
      obtain ⟨w', log, tops, hprocessed, hw', -, -⟩ := w.process_reported hloose now c
      have hfirst := w.verdicts_process hloose now (hnew _ List.mem_cons_self)
      have hrest := ih w' (hprocessed.loose hloose) fun x hx => hnew x (List.mem_cons_of_mem _ hx)
      rw [hw'] at hrest
      rw [Engine.log, List.map_append, verdicts_append, hfirst, hrest, ← tagsOf_append]
      rfl

end Matchbox
