import Matchbox.Safety.Identity
import Matchbox.Safety.Rejects

/-!
# Naming one's own orders

A Cancel and a Replace name an order by its identifier, and the engine refuses them when the order belongs to another session. Since an identifier is issued only once, a session that only ever names identifiers from its own Accepted events is never refused for that reason, whatever has happened to the order and to its slot in between.
-/

namespace Matchbox

/-- The engine has accepted an order of this session under this tag and told it this identifier. -/
def AcceptedFor (events : List Event) (sid tag id : Nat) : Prop :=
  ∃ ev ∈ events, ev.kind = .accepted ∧ ev.session = sid ∧ ev.tag = tag ∧ ev.orderId = id

theorem AcceptedFor.mono {events events' : List Event} {sid tag id : Nat} (h : AcceptedFor events sid tag id)
    (hbegin : events <+: events') : AcceptedFor events' sid tag id := by
  obtain ⟨ev, hev, hfields⟩ := h
  exact ⟨ev, hbegin.subset hev, hfields⟩

theorem eq_of_accepts {log : List Emission} (hnodup : (issued log).Nodup) {t u : Emission} {id : Nat} (ht : t ∈ log)
    (hu : u ∈ log) (htid : t.Accepts id) (huid : u.Accepts id) : t = u := by
  refine List.inj_on_of_nodup_map hnodup ?_ ?_ (htid.2.trans huid.2.symm)
  · exact List.mem_filter.2 ⟨ht, decide_eq_true htid.1⟩
  · exact List.mem_filter.2 ⟨hu, decide_eq_true huid.1⟩

/-- The reasons for which the engine refuses a command that does not name another session's order. -/
def RejectReason.isOwn (r : RejectReason) : Prop :=
  r = .badSymbol ∨ r = .badPrice ∨ r = .badQty ∨ r = .bookFull ∨ r = .unknownOrder

section Refusals

variable {e : Engine} {c : Command} {r : RejectReason}

theorem Engine.foreignRefusal_own (hrefusal : e.foreignRefusal c = some r)
    (hown : ∀ i ∈ e.pool.liveSlots, (e.pool.slots i).id = c.orderId → (e.pool.slots i).session = c.session) :
    r.isOwn := by
  rw [foreignRefusal] at hrefusal
  split at hrefusal
  · cases hrefusal
    exact .inr (.inr (.inr (.inr rfl)))
  · split at hrefusal
    · rename_i hforeign
      obtain ⟨i, hi, hid, hsession⟩ := hforeign
      exact absurd (hown i hi hid) hsession
    · cases hrefusal

theorem Engine.refusal_own (hrefusal : e.refusal c = some r)
    (hown : c.kind ≠ .new → ∀ i ∈ e.pool.liveSlots, (e.pool.slots i).id = c.orderId →
      (e.pool.slots i).session = c.session) : r.isOwn := by
  rw [refusal] at hrefusal
  split at hrefusal
  · split at hrefusal
    · cases hrefusal
      exact .inl rfl
    · split at hrefusal
      · cases hrefusal
        exact .inr (.inr (.inl rfl))
      · split at hrefusal
        · cases hrefusal
          exact .inr (.inl rfl)
        · split at hrefusal
          · cases hrefusal
            exact .inr (.inr (.inr (.inl rfl)))
          · cases hrefusal
  · rename_i hkind
    exact foreignRefusal_own hrefusal (hown (by rw [hkind]; decide))
  · rename_i hkind
    split at hrefusal
    · rename_i r' hforeign
      cases hrefusal
      exact foreignRefusal_own hforeign (hown (by rw [hkind]; decide))
    · split at hrefusal
      · cases hrefusal
        exact .inr (.inr (.inl rfl))
      · split at hrefusal
        · cases hrefusal
          exact .inr (.inl rfl)
        · cases hrefusal

end Refusals

namespace Engine

variable {cfg : Config} {cmds : List (Nat × Command)}

theorem log_split (e : Engine) (before : List (Nat × Command)) (now : Nat) (c : Command) (after : List (Nat × Command)) :
    ∃ rest, e.log (before ++ (now, c) :: after) = e.log before ++ ((e.run before).process now c).2 ++ rest := by
  induction before generalizing e with
  | nil => exact ⟨_, rfl⟩
  | cons cmd before ih =>
      obtain ⟨rest, hrest⟩ := ih (e.process cmd.1 cmd.2).1
      refine ⟨rest, ?_⟩
      rw [List.cons_append, log, hrest, log, run]
      simp only [List.append_assoc]

/-- The ledger before a command of a run, and the Accepted events of all of it. -/
theorem known_before {before after : List (Nat × Command)} {now : Nat} {c : Command}
    (hfew : (issued ((init cfg).log (before ++ (now, c) :: after))).length ≤ 2 ^ 32 - 1) :
    ∃ w : Ledger, w.e = (init cfg).run before ∧ w.loose = [] ∧ Known w ((init cfg).log before) := by
  obtain ⟨rest, hsplit⟩ := (init cfg).log_split before now c after
  rw [hsplit, issued_append, issued_append, List.length_append, List.length_append] at hfew
  have hfew' : (issued ([] ++ (init cfg).log before)).length ≤ 2 ^ 32 - 1 := by
    rw [List.nil_append]
    omega
  exact Ledger.run_known before (Ledger.init cfg) rfl (Known.init cfg) hfew'

/-- A session that only names orders accepted for it is refused for reasons of its own. -/
theorem rejects_own (hfew : (issued ((init cfg).log cmds)).length ≤ 2 ^ 32 - 1) {sid : Nat}
    (hnames : ∀ x ∈ cmds, x.2.session = sid → x.2.kind ≠ .new →
      ∃ tag, AcceptedFor (((init cfg).log cmds).map Emission.event) sid tag x.2.orderId)
    {t : Emission} (ht : t ∈ (init cfg).log cmds) (hkind : t.event.kind = .rejected) (hsid : t.event.session = sid) :
    t.event.reason.isOwn := by
  obtain ⟨wAll, -, -, hknownAll⟩ := Ledger.run_known cmds (Ledger.init cfg) rfl (Known.init cfg) hfew
  obtain ⟨before, now, c, after, rfl, hprocess⟩ := mem_log ht
  obtain ⟨w, hw, hloose, hknown⟩ := known_before hfew
  obtain ⟨w', more, tops, hprocessed, -, hlog, hreported⟩ := w.process_reported hloose now c
  rw [← hw, hlog] at hprocess
  have hmore : t ∈ more := by
    rcases List.mem_append.1 hprocess with hmore | htop
    · exact hmore
    · rw [(hreported.isTop t htop).1] at hkind
      cases hkind
  rcases hprocessed.refusal hloose with ⟨r, hr, hlog', -⟩ | ⟨-, hkinds⟩
  · rw [hlog', List.mem_singleton] at hmore
    subst hmore
    refine refusal_own hr fun hold i hi hid => ?_
    obtain ⟨hlt, hlive⟩ := OrderPool.mem_liveSlots.1 hi
    obtain ⟨u, hu, huid, hlabel⟩ := hknown.signed i hlt hlive
    obtain ⟨tag, ev, hev, hevkind, hevsid, -, hevid⟩ :=
      hnames (now, c) (List.mem_append_right _ List.mem_cons_self) hsid hold
    obtain ⟨v, hv, rfl⟩ := List.mem_map.1 hev
    -- the live order was accepted before, under the identifier that this session was told
    have hsame : u = v := by
      refine eq_of_accepts hknownAll.accounts.nodup ?_ hv ⟨huid.1, huid.2.trans hid⟩ ⟨hevkind, hevid⟩
      obtain ⟨rest, hsplit⟩ := (init cfg).log_split before now c after
      change u ∈ (init cfg).log _
      rw [hsplit]
      exact List.mem_append_left _ (List.mem_append_left _ hu)
    subst hsame
    have hsession : u.event.session = (w.e.pool.slots i).session := congrArg Prod.fst hlabel
    exact hsession.symm.trans (hevsid.trans hsid.symm)
  · exact absurd hkind (hkinds t hmore)

/-- An Accepted event answers a New of the session, and its identifier is a 64-bit number. -/
theorem mem_log_accepted (hfew : (issued ((init cfg).log cmds)).length ≤ 2 ^ 32 - 1) {t : Emission}
    (ht : t ∈ (init cfg).log cmds) (hkind : t.event.kind = .accepted) :
    t.event.orderId < 2 ^ 64 ∧ ∃ x ∈ cmds, x.2.session = t.event.session ∧ x.2.tag = t.event.tag := by
  obtain ⟨wAll, -, -, hknownAll⟩ := Ledger.run_known cmds (Ledger.init cfg) rfl (Known.init cfg) hfew
  refine ⟨?_, ?_⟩
  · obtain ⟨i, hi, g, -, hg, hid⟩ := (hknownAll.accounts.issued t.event.orderId).1 (mem_issued.2 ⟨t, ht, hkind, rfl⟩)
    have hcount := hknownAll.accounts.count i hi
    have hfew' := hknownAll.few
    have hslot := wAll.rep.lt_word32 hi
    rw [hid, OrderPool.idOf_eq hslot]
    change i < 2 ^ 32 at hslot
    change g * 2 ^ 32 + i < 2 ^ 64
    omega
  · obtain ⟨before, now, c, after, rfl, hprocess⟩ := mem_log ht
    obtain ⟨w, hw, hloose, -⟩ := known_before hfew
    obtain ⟨w', more, tops, hprocessed, -, hlog, hreported⟩ := w.process_reported hloose now c
    rw [← hw, hlog] at hprocess
    refine ⟨(now, c), List.mem_append_right _ List.mem_cons_self, ?_⟩
    rcases List.mem_append.1 hprocess with hmore | htop
    · obtain ⟨-, hlabel⟩ := hprocessed.accepts hmore ⟨hkind, rfl⟩
      simp only [Event.label, Prod.mk.injEq] at hlabel
      exact ⟨hlabel.1.symm, hlabel.2.2.2.symm⟩
    · rw [(hreported.isTop t htop).1] at hkind
      cases hkind

end Engine

end Matchbox
