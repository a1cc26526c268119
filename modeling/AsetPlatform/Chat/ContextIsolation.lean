import AsetPlatform.Chat.ContextStore
import AsetPlatform.Library.Run

/-!
# Isolation of conversation contexts

The store checks neither who created the context under a session id nor whether a resumed object is
still in use under another one. `isolated_of_apart`: in a run whose steps keep users and sessions
apart in this respect (`Apart`), every step is isolated.

The invariant ties each live object in memory to the one session id it belongs to: an object reached
under another id has expired.
-/

set_option autoImplicit false

namespace AsetPlatform.Chat

open AsetPlatform.Library

namespace ContextStore

/-- Live objects are stored under their own session id, updates work on objects of their user, and
the user of an object or a row is the one who created it. -/
structure WellFormed (w : ContextStore) : Prop where
  clock_pos : 0 < w.clock
  entry : ∀ s a, w.entries.get? s = some a →
    a < w.next ∧ 0 < (w.heap a).ctx.lastUpdated ∧
      (w.expired w.clock (w.heap a) = true ∨ (w.heap a).ctx.sessionId = s)
  update : ∀ t p, w.pending t = some p →
    p.addr < w.next ∧ (w.heap p.addr).creator = p.user ∧
      ((w.heap p.addr).ctx.sessionId = p.sessionId ∨
        0 < (w.heap p.addr).ctx.lastUpdated ∧ w.expired w.clock (w.heap p.addr) = true)
  owner : ∀ a, a < w.next → (w.heap a).ctx.userId = (w.heap a).creator
  row : ∀ s r, w.rows.get? s = some r →
    r.stored.ctx.userId = r.stored.creator ∧ r.stored.ctx.sessionId = s ∧
      0 < r.stored.ctx.lastUpdated

/-- From the time of `w` on nothing differs under other session ids; the clock and the updates under
way are the same. -/
structure SameElsewhere (sessionId : String) (w w' : ContextStore) : Prop where
  clock : w'.clock = w.clock
  pending : w'.pending = w.pending
  memory : ∀ s now, s ≠ sessionId → w.clock ≤ now → w'.inMemory now s = w.inMemory now s
  rows : ∀ s, s ≠ sessionId → w'.inDatabase s = w.inDatabase s

theorem SameElsewhere.refl (sessionId : String) (w : ContextStore) : SameElsewhere sessionId w w :=
  ⟨rfl, rfl, fun _ _ _ _ => rfl, fun _ _ => rfl⟩

theorem SameElsewhere.trans {sessionId : String} {w w' w'' : ContextStore}
    (h : SameElsewhere sessionId w w') (h' : SameElsewhere sessionId w' w'') :
    SameElsewhere sessionId w w'' where
  clock := h'.clock.trans h.clock
  pending := h'.pending.trans h.pending
  memory s now hs hnow :=
    (h'.memory s now hs (by rw [h.clock]; exact hnow)).trans (h.memory s now hs hnow)
  rows s hs := (h'.rows s hs).trans (h.rows s hs)

/-! ## The clock -/

theorem expired_of_le (w : ContextStore) {now later : Nat} {o : StoredContext} (hle : now ≤ later)
    (h : w.expired now o = true) : w.expired later o = true := by
  simp only [expired, decide_eq_true_eq] at h ⊢
  omega

theorem WellFormed.tick {w : ContextStore} (hw : WellFormed w) (elapsed : Nat) :
    WellFormed (w.tick elapsed) where
  clock_pos := Nat.add_pos_left hw.clock_pos elapsed
  entry s a ha := by
    obtain ⟨hlt, hpos, hlive⟩ := hw.entry s a ha
    exact ⟨hlt, hpos, hlive.imp_left (w.expired_of_le (Nat.le_add_right _ _))⟩
  update t p hp := by
    obtain ⟨hlt, hcreator, hlive⟩ := hw.update t p hp
    exact ⟨hlt, hcreator, hlive.imp_right fun h =>
      ⟨h.1, w.expired_of_le (Nat.le_add_right _ _) h.2⟩⟩
  owner := hw.owner
  row := hw.row

/-! ## The primitive operations -/

theorem alloc_heap_of_lt (w : ContextStore) (o : StoredContext) {a : Nat} (h : a < w.next) :
    (w.alloc o).2.heap a = w.heap a := by
  show Function.update w.heap w.next o a = w.heap a
  rw [Function.update_of_ne (Nat.ne_of_lt h)]

theorem alloc_heap_self (w : ContextStore) (o : StoredContext) :
    (w.alloc o).2.heap (w.alloc o).1 = o := by
  show Function.update w.heap w.next o w.next = o
  rw [Function.update_self]

theorem write_heap_self (w : ContextStore) (a : Nat) (o : StoredContext) :
    (w.write a o).heap a = o := by
  show Function.update w.heap a o a = o
  rw [Function.update_self]

theorem write_heap_of_ne (w : ContextStore) (o : StoredContext) {a b : Nat} (h : b ≠ a) :
    (w.write a o).heap b = w.heap b := by
  show Function.update w.heap a o b = w.heap b
  rw [Function.update_of_ne h]

theorem modify_heap_self (w : ContextStore) (a : Nat)
    (f : ConversationContext → ConversationContext) :
    (w.modify a f).heap a = { w.heap a with ctx := f (w.heap a).ctx } := w.write_heap_self a _

theorem alloc_ok {w : ContextStore} (hw : WellFormed w) {o : StoredContext}
    (ho : o.ctx.userId = o.creator) (sessionId : String) :
    WellFormed (w.alloc o).2 ∧ SameElsewhere sessionId w (w.alloc o).2 := by
  constructor
  · constructor
    · exact hw.clock_pos
    · intro s a ha
      obtain ⟨hlt, h⟩ := hw.entry s a ha
      rw [w.alloc_heap_of_lt o hlt]
      exact ⟨Nat.lt_succ_of_lt hlt, h⟩
    · intro t p hp
      obtain ⟨hlt, h⟩ := hw.update t p hp
      rw [w.alloc_heap_of_lt o hlt]
      exact ⟨Nat.lt_succ_of_lt hlt, h⟩
    · intro a ha
      rcases Nat.lt_succ_iff_lt_or_eq.mp ha with hlt | rfl
      · rw [w.alloc_heap_of_lt o hlt]
        exact hw.owner a hlt
      · rw [show (w.alloc o).2.heap w.next = o from w.alloc_heap_self o]
        exact ho
    · exact hw.row
  · refine ⟨rfl, rfl, fun s now _ _ => ?_, fun _ _ => rfl⟩
    unfold inMemory
    cases ha : w.entries.get? s with
    | none => simp [alloc, ha]
    | some a =>
        have hheap := w.alloc_heap_of_lt o (hw.entry s a ha).1
        have hentries : (w.alloc o).2.entries.get? s = some a := ha
        rw [hentries, Option.map_some, Option.map_some, hheap]
        rfl

/-- Changing an object in place. It keeps its creator, its user and its time stamp; a live object
keeps its session id, and it is one of the session of the step. -/
theorem write_ok {w : ContextStore} (hw : WellFormed w) {a : Nat} {o : StoredContext}
    (sessionId : String) (ha : a < w.next)
    (hupdated : o.ctx.lastUpdated = (w.heap a).ctx.lastUpdated)
    (hcreator : o.creator = (w.heap a).creator) (huser : o.ctx.userId = o.creator)
    (hsession : o.ctx.sessionId = (w.heap a).ctx.sessionId ∨
      0 < (w.heap a).ctx.lastUpdated ∧ w.expired w.clock (w.heap a) = true)
    (hlive : (w.heap a).ctx.sessionId = sessionId ∨ w.expired w.clock (w.heap a) = true) :
    WellFormed (w.write a o) ∧ SameElsewhere sessionId w (w.write a o) := by
  have hself := w.write_heap_self a o
  have hother : ∀ b, b ≠ a → (w.write a o).heap b = w.heap b := fun b hb => w.write_heap_of_ne o hb
  have hexpired : ∀ now, w.expired now o = w.expired now (w.heap a) := by
    intro now
    simp only [expired, hupdated]
  constructor
  · constructor
    · exact hw.clock_pos
    · intro s b hb
      obtain ⟨hlt, hpos, hcase⟩ := hw.entry s b hb
      refine ⟨hlt, ?_⟩
      by_cases hba : b = a
      · subst hba
        rw [hself, hupdated]
        refine ⟨hpos, ?_⟩
        rcases hcase with hcase | hcase
        · exact Or.inl ((hexpired _).trans hcase)
        · rcases hsession with hs | ⟨-, hs⟩
          · exact Or.inr (hs.trans hcase)
          · exact Or.inl ((hexpired _).trans hs)
      · rw [hother b hba]
        exact ⟨hpos, hcase⟩
    · intro t p hp
      obtain ⟨hlt, hcr, hcase⟩ := hw.update t p hp
      refine ⟨hlt, ?_⟩
      by_cases hpa : p.addr = a
      · rw [hpa] at hcr hcase ⊢
        rw [hself, hupdated, hcreator]
        refine ⟨hcr, ?_⟩
        rcases hcase with hcase | ⟨hpos, hcase⟩
        · rcases hsession with hs | ⟨hpos, hs⟩
          · exact Or.inl (hs.trans hcase)
          · exact Or.inr ⟨hpos, (hexpired _).trans hs⟩
        · exact Or.inr ⟨hpos, (hexpired _).trans hcase⟩
      · rw [hother _ hpa]
        exact ⟨hcr, hcase⟩
    · intro b hb
      by_cases hba : b = a
      · subst hba
        rw [hself]
        exact huser
      · rw [hother b hba]
        exact hw.owner b hb
    · exact hw.row
  · refine ⟨rfl, rfl, fun s now hs hnow => ?_, fun _ _ => rfl⟩
    unfold inMemory
    have hentries : (w.write a o).entries = w.entries := rfl
    rw [hentries]
    cases hb : w.entries.get? s with
    | none => rfl
    | some b =>
        by_cases hba : b = a
        · -- Under another session id the object has expired: it is not seen before or after.
          subst hba
          have hgone : w.expired now (w.heap b) = true := by
            apply w.expired_of_le hnow
            rcases hlive with h | h
            · rcases (hw.entry s b hb).2.2 with h' | h'
              · exact h'
              · exact absurd (h'.symm.trans h) hs
            · exact h
          have hgone' : (w.write b o).expired now ((w.write b o).heap b) = true := by
            rw [hself]
            exact (hexpired now).trans hgone
          simp [Option.filter, hgone, hgone']
        · rw [Option.map_some, Option.map_some, hother b hba]
          rfl

/-- Changing the entry of one session id, to an object that belongs to it. -/
theorem setEntries_ok {w : ContextStore} (hw : WellFormed w) (d : Dict String Nat)
    (sessionId : String) (hother : ∀ s, s ≠ sessionId → d.get? s = w.entries.get? s)
    (hself : ∀ a, d.get? sessionId = some a →
      a < w.next ∧ 0 < (w.heap a).ctx.lastUpdated ∧
        (w.expired w.clock (w.heap a) = true ∨ (w.heap a).ctx.sessionId = sessionId)) :
    WellFormed { w with entries := d } ∧ SameElsewhere sessionId w { w with entries := d } := by
  constructor
  · refine ⟨hw.clock_pos, fun s a ha => ?_, hw.update, hw.owner, hw.row⟩
    by_cases hs : s = sessionId
    · subst hs
      exact hself a ha
    · exact hw.entry s a ((hother s hs).symm.trans ha)
  · refine ⟨rfl, rfl, fun s now hs _ => ?_, fun _ _ => rfl⟩
    unfold inMemory
    rw [show ({ w with entries := d } : ContextStore).entries = d from rfl, hother s hs]
    rfl

theorem pgSave_ok {w : ContextStore} (hw : WellFormed w) {o : StoredContext} (dbNow : Nat)
    (huser : o.ctx.userId = o.creator) (hpos : 0 < o.ctx.lastUpdated) :
    WellFormed (w.pgSave o dbNow) ∧ SameElsewhere o.ctx.sessionId w (w.pgSave o dbNow) := by
  constructor
  · refine ⟨hw.clock_pos, hw.entry, hw.update, hw.owner, fun s r hr => ?_⟩
    rw [show (w.pgSave o dbNow).rows = w.rows.set o.ctx.sessionId _ from rfl, Dict.get?_set] at hr
    split at hr
    · rename_i hs
      rw [← Option.some.inj hr]
      cases hrow : w.rows.get? o.ctx.sessionId with
      | none => exact ⟨huser, hs.symm, hpos⟩
      | some row => exact ⟨(hw.row _ _ hrow).1, hs.symm, hpos⟩
    · exact hw.row s r hr
  · refine ⟨rfl, rfl, fun _ _ _ _ => rfl, fun s hs => ?_⟩
    unfold inDatabase
    rw [show (w.pgSave o dbNow).rows = w.rows.set o.ctx.sessionId _ from rfl, Dict.get?_set,
      if_neg hs]

/-! ## Looking a context up -/

/-- What `get` returns: an object of the session, which is one of those stored under its id. -/
structure Found (w : ContextStore) (sessionId : String) (a : Nat) (w' : ContextStore) : Prop where
  lt : a < w'.next
  session : (w'.heap a).ctx.sessionId = sessionId
  stored : w.inMemory w.clock sessionId = some (w'.heap a) ∨
    w.inDatabase sessionId = some (w'.heap a)

theorem load_ok {w : ContextStore} (hw : WellFormed w) (sessionId : String) (dbUp : Bool) :
    WellFormed (w.load sessionId dbUp).2 ∧ SameElsewhere sessionId w (w.load sessionId dbUp).2 ∧
      ∀ a, (w.load sessionId dbUp).1 = some a →
        a < (w.load sessionId dbUp).2.next ∧
          ((w.load sessionId dbUp).2.heap a).ctx.sessionId = sessionId ∧
          w.inDatabase sessionId = some ((w.load sessionId dbUp).2.heap a) := by
  unfold load
  cases hrow : (if dbUp then w.rows.get? sessionId else none) with
  | none => exact ⟨hw, SameElsewhere.refl sessionId w, fun a ha => absurd ha (by simp)⟩
  | some row =>
      have hget : w.rows.get? sessionId = some row := by
        cases dbUp
        · simp at hrow
        · simpa using hrow
      obtain ⟨huser, hsession, hpos⟩ := hw.row sessionId row hget
      obtain ⟨halloc, hsame⟩ := alloc_ok hw huser sessionId
      have hheap := w.alloc_heap_self row.stored
      have hset := setEntries_ok halloc (w.entries.set sessionId w.next) sessionId
        (fun s hs => by rw [Dict.get?_set, if_neg hs]; rfl) (by
          intro a ha
          rw [Dict.get?_set, if_pos rfl] at ha
          obtain rfl := Option.some.inj ha
          refine ⟨Nat.lt_succ_self _, ?_, Or.inr ?_⟩
          · rw [show (w.alloc row.stored).2.heap w.next = row.stored from hheap]
            exact hpos
          · rw [show (w.alloc row.stored).2.heap w.next = row.stored from hheap]
            exact hsession)
      refine ⟨hset.1, hsame.trans hset.2, fun a ha => ?_⟩
      obtain rfl := Option.some.inj ha
      refine ⟨Nat.lt_succ_self _, ?_, ?_⟩
      · show ((w.alloc row.stored).2.heap w.next).ctx.sessionId = sessionId
        rw [show (w.alloc row.stored).2.heap w.next = row.stored from hheap]
        exact hsession
      · show w.inDatabase sessionId = some ((w.alloc row.stored).2.heap w.next)
        rw [show (w.alloc row.stored).2.heap w.next = row.stored from hheap]
        simp [inDatabase, hget]

theorem get_ok {w : ContextStore} (hw : WellFormed w) (sessionId : String) (dbUp : Bool) :
    WellFormed (w.get sessionId dbUp).2 ∧ SameElsewhere sessionId w (w.get sessionId dbUp).2 ∧
      ∀ a, (w.get sessionId dbUp).1 = some a → Found w sessionId a (w.get sessionId dbUp).2 := by
  unfold get
  cases hentry : w.entries.get? sessionId with
  | none =>
      obtain ⟨hload, hsame, hfound⟩ := load_ok hw sessionId dbUp
      refine ⟨hload, hsame, fun a ha => ?_⟩
      obtain ⟨hlt, hsession, hrow⟩ := hfound a ha
      exact ⟨hlt, hsession, Or.inr hrow⟩
  | some b =>
      simp only
      split
      · obtain ⟨herase, herased⟩ := setEntries_ok hw (w.entries.erase sessionId)
          sessionId (fun s hs => by rw [Dict.get?_erase, if_neg hs])
          (fun a ha => absurd ha (by simp))
        obtain ⟨hload, hsame, hfound⟩ := load_ok herase sessionId dbUp
        refine ⟨hload, herased.trans hsame, fun a ha => ?_⟩
        obtain ⟨hlt, hsession, hrow⟩ := hfound a ha
        exact ⟨hlt, hsession, Or.inr hrow⟩
      · rename_i hlive
        have hlive' : w.expired w.clock (w.heap b) = false := by simpa using hlive
        obtain ⟨hlt, -, hsession⟩ := hw.entry sessionId b hentry
        refine ⟨hw, SameElsewhere.refl sessionId w, fun a ha => ?_⟩
        obtain rfl := Option.some.inj ha
        refine ⟨hlt, hsession.resolve_left hlive, Or.inl ?_⟩
        simp [inMemory, hentry, Option.filter, hlive']

theorem Found.creator_eq {w w' : ContextStore} {sessionId user : String} {a : Nat}
    (h : Found w sessionId a w') (howned : w.OwnedBy w.clock sessionId user) :
    (w'.heap a).creator = user := by
  rcases h.stored with hmem | hrow
  · exact howned.1 _ hmem
  · exact howned.2 _ hrow

/-- What `get_latest_for_user` returns: an object of the user in memory, or a new copy of a row of
the user. -/
theorem getLatestForUser_cases (w : ContextStore) (user : String) (dbUp : Bool) :
    w.getLatestForUser user dbUp = (none, w) ∨
      (∃ a s, w.getLatestForUser user dbUp = (some a, w) ∧ w.latestInMemory user = some a ∧
        w.entries.get? s = some a ∧ (w.heap a).ctx.userId = user) ∨
      ∃ s row, w.getLatestForUser user dbUp =
          (some (w.alloc row.stored).1, (w.alloc row.stored).2) ∧
        w.rows.get? s = some row ∧ row.stored.ctx.userId = user := by
  unfold getLatestForUser
  cases hmem : w.latestInMemory user with
  | some a =>
      obtain ⟨e, hbest, rfl⟩ := Option.map_eq_some_iff.mp hmem
      obtain ⟨hget, huser⟩ := Dict.of_best hbest
      exact Or.inr (Or.inl ⟨e.2, e.1, rfl, rfl, hget, by simpa using huser⟩)
  | none =>
      simp only
      cases hrow : (if dbUp then w.latestRow user else none) with
      | none => exact Or.inl rfl
      | some row =>
          have hlatest : w.latestRow user = some row := by
            cases dbUp
            · simp at hrow
            · simpa using hrow
          obtain ⟨e, hbest, rfl⟩ := Option.map_eq_some_iff.mp hlatest
          obtain ⟨hget, huser⟩ := Dict.of_best hbest
          exact Or.inr (Or.inr ⟨e.1, e.2, rfl, hget, by simpa using huser⟩)

theorem alloc_modify (w : ContextStore) (o : StoredContext)
    (f : ConversationContext → ConversationContext) :
    (w.alloc o).2.modify (w.alloc o).1 f = (w.alloc { o with ctx := f o.ctx }).2 := by
  have hself := w.alloc_heap_self o
  unfold modify write
  rw [hself]
  simp [alloc, Function.update_idem]

@[simp]
theorem carryOver_lastUpdated (user sessionId : String) (transport : Transport)
    (ctx : ConversationContext) :
    (carryOver user sessionId transport ctx).lastUpdated = ctx.lastUpdated := by
  cases transport with
  | ws => rfl
  | http profile => cases profile <;> rfl

@[simp]
theorem carryOver_sessionId (user sessionId : String) (transport : Transport)
    (ctx : ConversationContext) : (carryOver user sessionId transport ctx).sessionId = sessionId := by
  cases transport with
  | ws => rfl
  | http profile => cases profile <;> rfl

theorem carryOver_userId {user : String} (sessionId : String) (transport : Transport)
    {ctx : ConversationContext} (h : ctx.userId = user) :
    (carryOver user sessionId transport ctx).userId = user := by
  cases transport with
  | ws => exact h
  | http profile => cases profile <;> rfl

theorem fillProfile_keys (transport : Transport) (ctx : ConversationContext) :
    (fillProfile transport ctx).sessionId = ctx.sessionId ∧
      (fillProfile transport ctx).userId = ctx.userId := by
  cases transport with
  | ws => exact ⟨rfl, rfl⟩
  | http profile => cases profile <;> exact ⟨rfl, rfl⟩

/-- What an update starts from: an object of its user and of its session. -/
structure Acquired (w : ContextStore) (user sessionId : String) (a : Nat) (w' : ContextStore) :
    Prop where
  wf : WellFormed w'
  same : SameElsewhere sessionId w w'
  lt : a < w'.next
  creator : (w'.heap a).creator = user
  session : (w'.heap a).ctx.sessionId = sessionId

theorem acquire_ok {w : ContextStore} (hw : WellFormed w) {user sessionId : String}
    {dbUp : Bool} (dbLatest : Bool) (transport : Transport)
    (howned : w.OwnedBy w.clock sessionId user)
    (hresume : NoLiveResume user (w.get sessionId dbUp)) :
    Acquired w user sessionId (w.acquire user sessionId dbUp dbLatest transport).1
      (w.acquire user sessionId dbUp dbLatest transport).2 := by
  obtain ⟨hwf, hsame, hfound⟩ := get_ok hw sessionId dbUp
  unfold acquire
  cases hget : w.get sessionId dbUp with
  | mk found w₁ =>
      rw [hget] at hwf hsame hfound hresume
      cases found with
      | some a =>
          have hf := hfound a rfl
          exact ⟨hwf, hsame, hf.lt, hf.creator_eq howned, hf.session⟩
      | none =>
          simp only
          rcases w₁.getLatestForUser_cases user dbLatest with h | ⟨a, s, h, hlatest, hentry, huser⟩ |
              ⟨s, row, h, hrow, huser⟩
          · -- A new context.
            rw [h]
            have hkeys := fillProfile_keys transport { sessionId := sessionId, userId := user }
            obtain ⟨halloc, hsame'⟩ := alloc_ok hwf (o :=
              { ctx := fillProfile transport { sessionId := sessionId, userId := user },
                creator := user }) hkeys.2 sessionId
            refine ⟨halloc, hsame.trans hsame', Nat.lt_succ_self _, ?_, ?_⟩
            · rw [alloc_heap_self]
            · rw [alloc_heap_self]
              exact hkeys.1
          · -- A resumed object: it has expired wherever else it is stored.
            rw [h]
            obtain ⟨hlt, hpos, -⟩ := hwf.entry s a hentry
            have hexpired := hresume a hlatest
            have hcreator : (w₁.heap a).creator = user := (hwf.owner a hlt).symm.trans huser
            obtain ⟨hwrite, hsame'⟩ := write_ok hwf
              (o := { w₁.heap a with ctx := carryOver user sessionId transport (w₁.heap a).ctx })
              sessionId hlt (carryOver_lastUpdated ..) rfl
              ((carryOver_userId sessionId transport huser).trans hcreator.symm)
              (Or.inr ⟨hpos, hexpired⟩) (Or.inr hexpired)
            refine ⟨hwrite, hsame.trans hsame', hlt, ?_, ?_⟩
            · rw [modify_heap_self]
              exact hcreator
            · rw [modify_heap_self]
              exact carryOver_sessionId ..
          · -- A copy of a row.
            rw [h]
            simp only
            rw [alloc_modify]
            have howner := (hwf.row s row hrow).1
            have hcarry := carryOver_userId sessionId transport huser
            obtain ⟨halloc, hsame'⟩ := alloc_ok hwf (o :=
              { row.stored with ctx := carryOver user sessionId transport row.stored.ctx })
              (hcarry.trans (huser.symm.trans howner)) sessionId
            refine ⟨halloc, hsame.trans hsame', Nat.lt_succ_self _, ?_, ?_⟩
            · show (Function.update w₁.heap w₁.next _ w₁.next).creator = user
              rw [Function.update_self]
              exact howner.symm.trans huser
            · show (Function.update w₁.heap w₁.next _ w₁.next).ctx.sessionId = sessionId
              rw [Function.update_self]
              exact carryOver_sessionId ..

/-! ## Storing a context -/

theorem stamp_ok {w : ContextStore} (hw : WellFormed w) {a : Nat} (sessionId : String)
    (ha : a < w.next) (hzero : (w.heap a).ctx.lastUpdated = 0) :
    WellFormed (w.modify a fun ctx => { ctx with lastUpdated := w.clock }) ∧
      SameElsewhere sessionId w (w.modify a fun ctx => { ctx with lastUpdated := w.clock }) := by
  have hother : ∀ b, b ≠ a →
      (w.modify a fun ctx => { ctx with lastUpdated := w.clock }).heap b = w.heap b :=
    fun b hb => w.write_heap_of_ne _ hb
  have hself := w.modify_heap_self a fun ctx => { ctx with lastUpdated := w.clock }
  -- The memory map holds stamped objects only.
  have hentry : ∀ s b, w.entries.get? s = some b → b ≠ a := by
    intro s b hb hba
    have := (hw.entry s b hb).2.1
    rw [hba, hzero] at this
    omega
  constructor
  · constructor
    · exact hw.clock_pos
    · intro s b hb
      rw [hother b (hentry s b hb)]
      exact hw.entry s b hb
    · intro t p hp
      obtain ⟨hlt, hcreator, hcase⟩ := hw.update t p hp
      refine ⟨hlt, ?_⟩
      by_cases hpa : p.addr = a
      · rw [hpa] at hcreator hcase ⊢
        rw [hself]
        refine ⟨hcreator, Or.inl ?_⟩
        rcases hcase with hcase | ⟨hpos, -⟩
        · exact hcase
        · omega
      · rw [hother _ hpa]
        exact ⟨hcreator, hcase⟩
    · intro b hb
      by_cases hba : b = a
      · subst hba
        rw [hself]
        exact hw.owner b hb
      · rw [hother b hba]
        exact hw.owner b hb
    · exact hw.row
  · refine ⟨rfl, rfl, fun s now _ _ => ?_, fun _ _ => rfl⟩
    unfold inMemory
    rw [show (w.modify a fun ctx => { ctx with lastUpdated := w.clock }).entries = w.entries from rfl]
    cases hb : w.entries.get? s with
    | none => rfl
    | some b =>
        rw [Option.map_some, Option.map_some, hother b (hentry s b hb)]
        rfl

/-- The first part of `upsert`: an object of the session, or an expired one, with a time stamp. -/
theorem stampIfNew_ok {w : ContextStore} (hw : WellFormed w) {a : Nat} (sessionId : String)
    (ha : a < w.next)
    (hsession : (w.heap a).ctx.sessionId = sessionId ∨
      0 < (w.heap a).ctx.lastUpdated ∧ w.expired w.clock (w.heap a) = true)
    {w₁ : ContextStore} (hw₁ : w₁ = w.modify a fun ctx =>
      if ctx.lastUpdated = 0 then { ctx with lastUpdated := w.clock } else ctx) :
    WellFormed w₁ ∧ SameElsewhere sessionId w w₁ ∧ a < w₁.next ∧
      0 < (w₁.heap a).ctx.lastUpdated ∧
      (w₁.expired w₁.clock (w₁.heap a) = true ∨ (w₁.heap a).ctx.sessionId = sessionId) ∧
      (w₁.heap a).ctx.sessionId = (w.heap a).ctx.sessionId := by
  by_cases hzero : (w.heap a).ctx.lastUpdated = 0
  · have hstamped : w₁ = w.modify a fun ctx => { ctx with lastUpdated := w.clock } := by
      simp only [hw₁, modify, hzero, if_true]
    obtain ⟨hwf, hsame⟩ := stamp_ok hw sessionId ha hzero
    rw [hstamped]
    refine ⟨hwf, hsame, ha, ?_, Or.inr ?_, ?_⟩
    · rw [modify_heap_self]
      exact hw.clock_pos
    · rw [modify_heap_self]
      rcases hsession with h | ⟨h, -⟩
      · exact h
      · omega
    · rw [modify_heap_self]
  · -- the object has been stored before and keeps its stamp
    have hsame : w₁ = w := by
      simp only [hw₁, modify, if_neg hzero, write]
      rw [show ({ w.heap a with ctx := (w.heap a).ctx } : StoredContext) = w.heap a from rfl,
        Function.update_eq_self]
    rw [hsame]
    refine ⟨hw, SameElsewhere.refl sessionId w, ha, Nat.pos_of_ne_zero hzero, ?_, rfl⟩
    rcases hsession with h | ⟨-, h⟩
    · exact Or.inr h
    · exact Or.inl h

/-- `upsert` of an object of the session, or of one that has expired. -/
theorem upsert_ok {w : ContextStore} (hw : WellFormed w) {a : Nat} (sessionId : String)
    (ha : a < w.next)
    (hsession : (w.heap a).ctx.sessionId = sessionId ∨
      0 < (w.heap a).ctx.lastUpdated ∧ w.expired w.clock (w.heap a) = true)
    (dbNow : Nat) (saved : Bool) (hsaved : saved = true → (w.heap a).ctx.sessionId = sessionId) :
    WellFormed (w.upsert sessionId a dbNow saved) ∧
      SameElsewhere sessionId w (w.upsert sessionId a dbNow saved) := by
  unfold upsert
  generalize hw₁ : (w.modify a fun ctx =>
    if ctx.lastUpdated = 0 then { ctx with lastUpdated := w.clock } else ctx) = w₁
  obtain ⟨hstamp, hsame₁, hnext, hpos, hsession₁, hid⟩ :=
    stampIfNew_ok hw sessionId ha hsession hw₁.symm
  obtain ⟨hset, hsame₂⟩ := setEntries_ok hstamp (w₁.entries.set sessionId a) sessionId
    (fun s hs => by rw [Dict.get?_set, if_neg hs]) (by
      intro b hb
      rw [Dict.get?_set, if_pos rfl] at hb
      obtain rfl := Option.some.inj hb
      exact ⟨hnext, hpos, hsession₁⟩)
  cases saved with
  | false => exact ⟨hset, hsame₁.trans hsame₂⟩
  | true =>
      obtain ⟨hsave, hsame₃⟩ := pgSave_ok hset (o := w₁.heap a) dbNow (hstamp.owner a hnext) hpos
      rw [hid, hsaved rfl] at hsame₃
      exact ⟨hsave, (hsame₁.trans hsame₂).trans hsame₃⟩

/-! ## The steps -/

theorem WellFormed.setPending {w : ContextStore} (hw : WellFormed w) (turn : Nat)
    {p : Option PendingUpdate}
    (hp : ∀ q ∈ p, q.addr < w.next ∧ (w.heap q.addr).creator = q.user ∧
      (w.heap q.addr).ctx.sessionId = q.sessionId) :
    WellFormed { w with pending := Function.update w.pending turn p } where
  clock_pos := hw.clock_pos
  entry := hw.entry
  owner := hw.owner
  row := hw.row
  update t q hq := by
    by_cases ht : t = turn
    · subst ht
      change Function.update w.pending t p t = some q at hq
      rw [Function.update_self] at hq
      obtain ⟨hlt, hcreator, hsession⟩ := hp q hq
      exact ⟨hlt, hcreator, Or.inl hsession⟩
    · change Function.update w.pending turn p t = some q at hq
      rw [Function.update_of_ne ht] at hq
      exact hw.update t q hq

/-- After the step nothing differs under other session ids. -/
def ElsewhereUnchanged (w : ContextStore) (e : ContextEvent) (sessionId : String) : Prop :=
  (∀ s now, s ≠ sessionId → w.timeOf e ≤ now → (w.step e).inMemory now s = w.inMemory now s) ∧
    ∀ s, s ≠ sessionId → (w.step e).inDatabase s = w.inDatabase s

/-- A well-formed step: the store stays well formed, and a step of a user reads a context of the
user and leaves the other session ids alone. -/
structure StepOk (w : ContextStore) (e : ContextEvent) : Prop where
  wf : WellFormed (w.step e)
  reads : ∀ user sessionId, w.actor e = some (user, sessionId) →
    ∀ o ∈ w.contextRead e, o.creator = user
  elsewhere : ∀ user sessionId, w.actor e = some (user, sessionId) →
    ElsewhereUnchanged w e sessionId

theorem StepOk.idle {w : ContextStore} {e : ContextEvent} (hwf : WellFormed (w.step e))
    (hactor : w.actor e = none) : StepOk w e where
  wf := hwf
  reads user sessionId hact := by
    rw [hactor] at hact
    cases hact
  elsewhere user sessionId hact := by
    rw [hactor] at hact
    cases hact

theorem StepOk.of_actor {w : ContextStore} {e : ContextEvent} {user sessionId : String}
    (hactor : w.actor e = some (user, sessionId)) (hwf : WellFormed (w.step e))
    (hreads : ∀ o ∈ w.contextRead e, o.creator = user)
    (helsewhere : ElsewhereUnchanged w e sessionId) : StepOk w e where
  wf := hwf
  reads u s hact := by
    obtain ⟨rfl, rfl⟩ := Prod.mk.inj (Option.some.inj (hactor.symm.trans hact))
    exact hreads
  elsewhere u s hact := by
    obtain ⟨rfl, rfl⟩ := Prod.mk.inj (Option.some.inj (hactor.symm.trans hact))
    exact helsewhere

theorem read_ok {w : ContextStore} (hw : WellFormed w) (elapsed : Nat) (user sessionId : String)
    (dbUp : Bool) (h : w.Apart (.read elapsed user sessionId dbUp)) :
    StepOk w (.read elapsed user sessionId dbUp) := by
  by_cases hempty : sessionId = ""
  · apply StepOk.idle
    · simp only [step, if_pos hempty]
      exact hw.tick elapsed
    · simp only [actor, if_pos hempty]
  · have hactor : w.actor (.read elapsed user sessionId dbUp) = some (user, sessionId) := by
      simp only [actor, if_neg hempty]
    have hstep : w.step (.read elapsed user sessionId dbUp) =
        ((w.tick elapsed).get sessionId dbUp).2 := by
      simp only [step, if_neg hempty]
    obtain ⟨hwf, hsame, hfound⟩ := get_ok (hw.tick elapsed) sessionId dbUp
    refine .of_actor hactor (by rw [hstep]; exact hwf) ?_ ?_
    · intro o ho
      obtain ⟨a, ha, rfl⟩ := Option.map_eq_some_iff.mp ho
      exact (hfound a ha).creator_eq (h.1 _ hactor)
    · simp only [ElsewhereUnchanged, hstep]
      exact ⟨hsame.memory, hsame.rows⟩

/-- Recording a result keeps the keys and the time stamp of a context of the user. -/
theorem recordResult_keys {user : String} {ctx : ConversationContext} (h : ctx.userId = user)
    (result : TurnResult) :
    ((ensureUser user ctx).recordResult result).userId = user ∧
      ((ensureUser user ctx).recordResult result).sessionId = ctx.sessionId ∧
      ((ensureUser user ctx).recordResult result).lastUpdated = ctx.lastUpdated := by
  simp only [ensureUser]
  split
  · exact ⟨rfl, rfl, rfl⟩
  · exact ⟨h, rfl, rfl⟩

/-- The context an update finds or resumes is one of its user. -/
theorem begin_reads {w : ContextStore} (hw : WellFormed w) {user sessionId : String}
    (dbUp dbLatest : Bool) (howned : w.OwnedBy w.clock sessionId user) :
    ∀ o ∈ (match w.get sessionId dbUp with
      | (some a, w) => some (w.heap a)
      | (none, w) =>
          let (found, w) := w.getLatestForUser user dbLatest
          found.map w.heap), o.creator = user := by
  obtain ⟨hwf, -, hfound⟩ := get_ok hw sessionId dbUp
  cases hget : w.get sessionId dbUp with
  | mk found w₁ =>
      rw [hget] at hwf hfound
      cases found with
      | some a =>
          intro o ho
          rw [← Option.some.inj ho]
          exact (hfound a rfl).creator_eq howned
      | none =>
          simp only
          rcases w₁.getLatestForUser_cases user dbLatest with h | ⟨a, s, h, -, hentry, huser⟩ |
              ⟨s, row, h, hrow, huser⟩ <;> rw [h] <;> intro o ho
          · simp at ho
          · rw [← Option.some.inj ho]
            exact (hwf.owner a (hwf.entry s a hentry).1).symm.trans huser
          · rw [← Option.some.inj ho, alloc_heap_self]
            exact (hwf.row s row hrow).1.symm.trans huser

theorem begin_ok {w : ContextStore} (hw : WellFormed w) (elapsed turn : Nat)
    (user sessionId : String) (dbUp dbLatest : Bool) (transport : Transport) (result : TurnResult)
    (h : w.Apart (.begin elapsed turn user sessionId dbUp dbLatest transport result)) :
    StepOk w (.begin elapsed turn user sessionId dbUp dbLatest transport result) := by
  by_cases hidle : sessionId = "" ∨ w.pending turn ≠ none
  · apply StepOk.idle
    · have hidle' : sessionId = "" ∨ (w.tick elapsed).pending turn ≠ none := hidle
      simp only [step, if_pos hidle']
      exact hw.tick elapsed
    · simp only [actor, if_pos hidle]
  · have hactor : w.actor (.begin elapsed turn user sessionId dbUp dbLatest transport result) =
        some (user, sessionId) := by
      simp only [actor, if_neg hidle]
    have howned := h.1 _ hactor
    obtain ⟨hwf, hsame, hlt, hcreator, hsession⟩ :=
      acquire_ok (hw.tick elapsed) dbLatest transport howned h.2
    have hidle' : ¬ (sessionId = "" ∨ (w.tick elapsed).pending turn ≠ none) := hidle
    have hreads := begin_reads (hw.tick elapsed) dbUp dbLatest howned
    have hstep : w.step (.begin elapsed turn user sessionId dbUp dbLatest transport result) =
        { ((w.tick elapsed).acquire user sessionId dbUp dbLatest transport).2.modify
            ((w.tick elapsed).acquire user sessionId dbUp dbLatest transport).1
            (fun ctx => (ensureUser user ctx).recordResult result) with
          pending := Function.update
            ((w.tick elapsed).acquire user sessionId dbUp dbLatest transport).2.pending turn
            (some ⟨user, sessionId,
              ((w.tick elapsed).acquire user sessionId dbUp dbLatest transport).1⟩) } := by
      simp only [step, if_neg hidle']
      rfl
    generalize (w.tick elapsed).acquire user sessionId dbUp dbLatest transport = acquired at *
    obtain ⟨a, w₁⟩ := acquired
    simp only at hwf hsame hlt hcreator hsession hstep
    have huser : (w₁.heap a).ctx.userId = user := (hwf.owner a hlt).trans hcreator
    obtain ⟨hkeyUser, hkeySession, hkeyUpdated⟩ := recordResult_keys huser result
    obtain ⟨hwrite, hsame'⟩ := write_ok hwf
      (o := { w₁.heap a with ctx := (ensureUser user (w₁.heap a).ctx).recordResult result })
      sessionId hlt hkeyUpdated rfl (hkeyUser.trans hcreator.symm) (Or.inl hkeySession)
      (Or.inl hsession)
    have hsame₂ := hsame.trans hsame'
    refine .of_actor hactor ?_ hreads ?_
    · rw [hstep]
      refine hwrite.setPending turn fun q hq => ?_
      obtain rfl := Option.some.inj hq
      refine ⟨hlt, ?_, ?_⟩
      · rw [write_heap_self]
        exact hcreator
      · rw [write_heap_self]
        exact hkeySession.trans hsession
    · simp only [ElsewhereUnchanged, hstep]
      exact ⟨hsame₂.memory, hsame₂.rows⟩

theorem finish_ok {w : ContextStore} (hw : WellFormed w) (elapsed turn : Nat)
    (newSummary : Option String) (dbNow : Nat) (saved : Bool)
    (h : w.Apart (.finish elapsed turn newSummary dbNow saved)) :
    StepOk w (.finish elapsed turn newSummary dbNow saved) := by
  cases hp : w.pending turn with
  | none =>
      apply StepOk.idle
      · have hp' : (w.tick elapsed).pending turn = none := hp
        simp only [step, hp']
        exact hw.tick elapsed
      · simp only [actor, hp, Option.map_none]
  | some p =>
      have hactor : w.actor (.finish elapsed turn newSummary dbNow saved) =
          some (p.user, p.sessionId) := by
        simp only [actor, hp, Option.map_some]
      have hp' : (w.tick elapsed).pending turn = some p := hp
      have hwt := hw.tick elapsed
      obtain ⟨hlt, hcreator, hsession⟩ := hwt.update turn p hp'
      obtain ⟨hwrite, hsame⟩ := write_ok hwt
        (o := { (w.tick elapsed).heap p.addr with
          ctx := ((w.tick elapsed).heap p.addr).ctx.updateSummary newSummary })
        p.sessionId hlt rfl rfl (hwt.owner p.addr hlt) (Or.inl rfl) (hsession.imp_right And.right)
      obtain ⟨hupsert, hsame'⟩ := upsert_ok hwrite (a := p.addr) p.sessionId hlt
        (by rw [write_heap_self]; exact hsession) dbNow saved (by
          rw [write_heap_self]
          exact h.2 p hp)
      have hsame₂ := hsame.trans hsame'
      have hstep : w.step (.finish elapsed turn newSummary dbNow saved) =
          { ((w.tick elapsed).modify p.addr fun ctx => ctx.updateSummary newSummary).upsert
              p.sessionId p.addr dbNow saved with
            pending := Function.update
              (((w.tick elapsed).modify p.addr fun ctx => ctx.updateSummary newSummary).upsert
                p.sessionId p.addr dbNow saved).pending turn none } := by
        simp only [step, hp']
      refine .of_actor hactor ?_ ?_ ?_
      · rw [hstep]
        exact hupsert.setPending turn fun q hq => absurd hq (by simp)
      · intro o ho
        simp only [contextRead, hp, Option.map_some, Option.mem_def, Option.some.injEq] at ho
        rw [← ho]
        exact hcreator
      · simp only [ElsewhereUnchanged, hstep]
        exact ⟨hsame₂.memory, hsame₂.rows⟩

theorem step_ok {w : ContextStore} (hw : WellFormed w) {e : ContextEvent} (h : w.Apart e) :
    StepOk w e := by
  cases e with
  | read elapsed user sessionId dbUp => exact read_ok hw elapsed user sessionId dbUp h
  | begin elapsed turn user sessionId dbUp dbLatest transport result =>
      exact begin_ok hw elapsed turn user sessionId dbUp dbLatest transport result h
  | finish elapsed turn newSummary dbNow saved =>
      exact finish_ok hw elapsed turn newSummary dbNow saved h
  | restart elapsed =>
      have hwt := hw.tick elapsed
      apply StepOk.idle _ rfl
      refine ⟨hwt.clock_pos, fun s a ha => ?_, fun t p hp => ?_, hwt.owner, hwt.row⟩
      · exact absurd ha (by simp [step])
      · exact absurd hp (by simp [step])

/-! ## Isolation -/

theorem inMemory_of_le {w : ContextStore} {now later : Nat} {s : String} {o : StoredContext}
    (hle : now ≤ later) (h : w.inMemory later s = some o) : w.inMemory now s = some o := by
  obtain ⟨hmem, hlive⟩ := Option.filter_eq_some_iff.mp h
  refine Option.filter_eq_some_iff.mpr ⟨hmem, ?_⟩
  cases hexp : w.expired now o with
  | false => rfl
  | true =>
      rw [w.expired_of_le hle hexp] at hlive
      simp at hlive

theorem isolated_step {w : ContextStore} (hw : WellFormed w) {e : ContextEvent} (h : w.Apart e)
    {user sessionId : String} (hactor : w.actor e = some (user, sessionId)) :
    w.Isolated e user sessionId := by
  have hok := step_ok hw h
  obtain ⟨hmemory, hrows⟩ := hok.elsewhere user sessionId hactor
  obtain ⟨hownMemory, hownRow⟩ := h.1 _ hactor
  have hseen : ∀ s now, s ≠ sessionId → w.timeOf e ≤ now → (w.step e).seen now s = w.seen now s := by
    intro s now hs hnow
    unfold seen
    rw [hmemory s now hs hnow, hrows s hs]
  refine ⟨hok.reads user sessionId hactor, ?_, ?_, hseen, hrows⟩
  · intro s now o hnow ho hother
    by_cases hs : s = sessionId
    · -- Under its own id the step sees contexts of its user only.
      subst hs
      rcases Option.or_eq_some_iff.mp ho with hmem | ⟨-, hrow⟩
      · exact absurd (hownMemory o (inMemory_of_le hnow hmem)) hother
      · exact absurd (hownRow o hrow) hother
    · rw [hseen s now hs hnow]
      exact ho
  · intro s o ho hother
    by_cases hs : s = sessionId
    · subst hs
      exact absurd (hownRow o ho) hother
    · rw [hrows s hs]
      exact ho

theorem start_wellFormed (ttl clock : Nat) : WellFormed (start ttl clock) where
  clock_pos := Nat.succ_pos clock
  entry s a ha := absurd ha (by simp [start])
  update t p hp := absurd hp (by simp [start])
  owner a ha := absurd ha (Nat.not_lt_zero a)
  row s r hr := absurd hr (by simp [start])

/-- In a run whose steps keep users and sessions apart, every step is isolated. -/
theorem isolated_of_apart (ttl clock : Nat) (events : List ContextEvent)
    (h : EveryStep step Apart (start ttl clock) events) :
    EveryStep step (fun w e => ∀ user sessionId, w.actor e = some (user, sessionId) →
      w.Isolated e user sessionId) (start ttl clock) events := by
  have hkeeps : ∀ w e, WellFormed w → Apart w e → WellFormed (w.step e) :=
    fun _ _ hw hg => (step_ok hw hg).wf
  have hisolated : ∀ w e, WellFormed w → Apart w e → ∀ user sessionId,
      w.actor e = some (user, sessionId) → w.Isolated e user sessionId :=
    fun _ _ hw hg _ _ hactor => isolated_step hw hg hactor
  exact everyStep_of_invariant hkeeps hisolated (start_wellFormed ttl clock) h

/-- The result of a turn on `ticker`. -/
def analysed (ticker : String) : TurnResult where
  currentAgent := "stock_analyst"
  intent := "stock_analysis"
  finalResponse := ticker ++ " looks fine."
  tickers := [ticker]

/-- Two users with a session each, turn about. -/
def separateSessions : List ContextEvent :=
  [ .begin 1 0 "alice" "a" true true .ws (analysed "TCS"),
    .begin 1 1 "bob" "b" true true .ws (analysed "INFY"),
    .finish 1 0 (some "Alice asked about TCS.") 3 true,
    .finish 1 1 (some "Bob asked about INFY.") 4 true,
    .read 1 "alice" "a" true ]

theorem isolated_separateSessions :
    EveryStep step (fun w e => ∀ user sessionId, w.actor e = some (user, sessionId) →
      w.Isolated e user sessionId) (start 3600 0) separateSessions :=
  isolated_of_apart 3600 0 separateSessions (by decide)

/-- A user takes the session id of another. -/
def sharedSession : List ContextEvent :=
  [ .begin 1 0 "alice" "a" true true .ws (analysed "TCS"),
    .finish 1 0 (some "Alice asked about TCS.") 2 true,
    .read 1 "bob" "a" true ]

/-- A user goes on in a new session while the old one is live. -/
def secondSession : List ContextEvent :=
  [ .begin 1 0 "alice" "a" true true .ws (analysed "TCS"),
    .finish 1 0 (some "Alice asked about TCS.") 2 true,
    .begin 1 1 "alice" "b" true true .ws (analysed "INFY") ]

/-- Under the session id of another user a turn reads that user's context; and the update of a
second session changes the context seen under the first, since both hold one object. -/
theorem shared_context_leaks :
    ¬ EveryStep step (fun w e => ∀ user sessionId, w.actor e = some (user, sessionId) →
        w.Isolated e user sessionId) (start 3600 0) sharedSession ∧
      ¬ EveryStep step (fun w e => ∀ user sessionId, w.actor e = some (user, sessionId) →
        w.Isolated e user sessionId) (start 3600 0) secondSession := by
  constructor
  · rintro ⟨-, -, hread, -⟩
    have h := hread "bob" "a" (by decide)
    exact absurd (h.reads_own _ rfl) (by decide)
  · rintro ⟨-, -, hbegin, -⟩
    have h := hbegin "alice" "b" (by decide)
    exact absurd (h.other_seen "a" 4 (by decide) (by decide)) (by decide)

end ContextStore

end AsetPlatform.Chat
