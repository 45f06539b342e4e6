import RendezvosLinux.Ipc.Rpc
import RendezvosLinux.Lib.Run

/-!
# The send slot

At most one message of a coop queue's jobs is in the outbound queue of its thread, and `send_owner` is
the job that it belongs to.

* `Moved q q' a j' own out`: one job was rewritten to `j'` (or released), with the slot (`own`) or
  without it afterwards, and `out` has been delivered. Every function of the queue is such a move, and
  `CallOutcome` and `PollOutcome` say which ones.
* `SlotOk`: who has the slot, and what is in the outbound queue.
* `one_sender_of_calls`: it holds in every state that the functions reach, in any order and with any
  results of the core, as long as nested calls are made on idle jobs.
-/

namespace Ipc

/-- The message of a job that has the slot. -/
def CoopJob.payload (j : CoopJob) : Message :=
  match j.state with
  | .nestedSend => ⟨j.req, j.nestedServer, .request (ipcRpcFormatNestToken j.nestCookie)⟩
  | _ => ⟨j.req, j.replyPort, .reply j.result⟩

/-- The port is registered, there is memory, and the send succeeds or has to be tried again. -/
structure CallEnv.Good (env : CallEnv) : Prop where
  found : env.found = true
  made : env.made = true
  enqueued : env.enqueued = .success
  sent : env.sent = .success ∨ env.sent = .again

namespace CoopQueue

open Keyed

variable {q q' q'' : CoopQueue} {a b : Nat} {j : CoopJob} {j' : Option CoopJob} {own : Bool}
  {out : List (CStr × Message)} {f g : CoopJob → CoopJob}

/-! ## Clearing the slot -/

@[simp] theorem seq_afterSend (q : CoopQueue) (port : CStr) (e : ErrorT) :
    (q.afterSend port e).seq = q.seq := by
  cases e with
  | success =>
    rw [afterSend]
    split
    · rfl
    · rfl
  | again | noMsg | portClosed | inParam | rendezvos => rfl

@[simp] theorem seq_clear (q : CoopQueue) (a : Nat) : (q.ipcRpcCoopClearSendOwner a).seq = q.seq := by
  unfold ipcRpcCoopClearSendOwner
  split
  · rfl
  · split
    · simp only
      split
      · rfl
      · rfl
    · rfl

@[simp] theorem seq_update (q : CoopQueue) (a : Nat) (f : CoopJob → CoopJob) :
    (q.update a f).seq = q.seq := rfl

@[simp] theorem seq_slotSent (q : CoopQueue) (a : Nat) (f : CoopJob → CoopJob) :
    (q.slotSent a f).seq = q.seq := rfl

@[simp] theorem seq_takeSlot (q : CoopQueue) (a : Nat) (m : Message) (f : CoopJob → CoopJob) :
    (q.takeSlot a m f).seq = q.seq := rfl

@[simp] theorem seq_setResult (q : CoopQueue) (a : Nat) (r : Int) :
    (q.ipcRpcCoopJobSetResult a r).seq = q.seq := by
  simp [ipcRpcCoopJobSetResult]

@[simp] theorem seq_release (q : CoopQueue) (a : Nat) : (q.ipcRpcCoopJobRelease a).seq = q.seq := by
  simp [ipcRpcCoopJobRelease]

@[simp] theorem seq_applyNestResp (q : CoopQueue) (cookie : Nat) (r : Int) (resume : Bool) :
    (q.ipcRpcCoopTryApplyNestResp cookie r resume).1.seq = q.seq := by
  unfold ipcRpcCoopTryApplyNestResp
  split
  · rfl
  · cases resume with
    | true => rfl
    | false => simp

@[simp] theorem seq_sendClientReply (q : CoopQueue) (a : Nat) (port : CStr) (env : PollEnv) :
    (q.sendClientReply a port env).1.seq = q.seq := by
  unfold sendClientReply
  split
  · simp
  · simp only
    split <;> simp

@[simp] theorem seq_tryClientReply (q : CoopQueue) (a : Nat) (env : PollEnv) :
    (q.ipcRpcCoopTryClientReply a env).1.seq = q.seq := by
  unfold ipcRpcCoopTryClientReply
  split
  · rfl
  · repeat' split
    all_goals simp

@[simp] theorem seq_pollJob (q : CoopQueue) (a : Nat) (env : PollEnv) :
    (q.pollJob a env).seq = q.seq := by
  unfold pollJob
  split
  · rfl
  · simp only
    repeat' split
    all_goals simp

theorem clear_owner (hj : q.get a = some j) (howner : q.sendOwner = some a)
    (hqueued : j.replyPayloadQueued = true) :
    q.ipcRpcCoopClearSendOwner a =
      { q with
        jobs := modify (·.addr) q.jobs a fun j => { j with replyPayloadQueued := false }
        outbound := q.outbound.tail, sendOwner := none } := by
  simp only [ipcRpcCoopClearSendOwner, hj, if_pos howner, hqueued, if_true, update,
    ipcRpcAbandonCurrentSendPayload]

theorem clear_other (howner : q.sendOwner ≠ some a) : q.ipcRpcCoopClearSendOwner a = q := by
  unfold ipcRpcCoopClearSendOwner
  split
  · rfl
  · rw [if_neg howner]

/-! ## Moves -/

/-- One job was rewritten (module doc). -/
structure Moved (q q' : CoopQueue) (a : Nat) (j' : Option CoopJob) (own : Bool)
    (out : List (CStr × Message)) : Prop where
  nodup : (q.jobs.map (·.addr)).Nodup → (q'.jobs.map (·.addr)).Nodup
  self : q'.get a = j'
  other : ∀ b, b ≠ a → q'.get b = q.get b
  owner : q'.sendOwner = if own then some a else if q.sendOwner = some a then none else q.sendOwner
  outbound : q'.outbound =
    if own then (j'.map CoopJob.payload).toList else if q.sendOwner = some a then [] else q.outbound
  delivered : q'.delivered = q.delivered ++ out

/-- A move that rewrites the job in its place. -/
theorem moved_modify (hj : q.get a = some j) (hf : ∀ j, (f j).addr = j.addr)
    (hjobs : q'.jobs = modify (·.addr) q.jobs a f)
    (howner : q'.sendOwner =
      if own then some a else if q.sendOwner = some a then none else q.sendOwner)
    (hout : q'.outbound =
      if own then [(f j).payload] else if q.sendOwner = some a then [] else q.outbound)
    (hdel : q'.delivered = q.delivered ++ out) : Moved q q' a (some (f j)) own out where
  nodup h := by
    rw [hjobs, keys_modify hf]
    exact h
  self := by
    rw [get, hjobs]
    exact get_modify_self hf hj
  other b hb := by
    rw [get, hjobs]
    exact get_modify_ne hf hb
  owner := howner
  outbound := hout
  delivered := hdel

/-- A move that does nothing. -/
theorem moved_refl (hj : q.get a = some j) (hown : own = true ↔ q.sendOwner = some a)
    (hout : own = true → q.outbound = [j.payload]) : Moved q q a (some j) own [] where
  nodup h := h
  self := hj
  other _ _ := rfl
  owner := by
    cases own with
    | true => rw [if_pos rfl, hown.1 rfl]
    | false => rw [if_neg Bool.false_ne_true, if_neg fun h => Bool.false_ne_true (hown.2 h)]
  outbound := by
    cases own with
    | true => rw [if_pos rfl, hout rfl]; rfl
    | false => rw [if_neg Bool.false_ne_true, if_neg fun h => Bool.false_ne_true (hown.2 h)]
  delivered := (List.append_nil _).symm

theorem Moved.not_owner (h : Moved q q' a j' false out) : q'.sendOwner ≠ some a := by
  rw [h.owner, if_neg Bool.false_ne_true]
  split
  · exact nofun
  · assumption

/-- A job that does not have the slot is released. -/
theorem Moved.release (h : Moved q q' a j' false out) :
    Moved q (q'.ipcRpcCoopJobRelease a) a none false out := by
  have howner := h.not_owner
  have hrel : q'.ipcRpcCoopJobRelease a = { q' with jobs := remove (·.addr) q'.jobs a } := by
    simp only [ipcRpcCoopJobRelease, clear_other howner]
  rw [hrel]
  refine ⟨fun hn => nodup_remove (h.nodup hn), ?_, fun b hb => ?_, h.owner, ?_, h.delivered⟩
  · rw [get, get_remove, if_pos rfl]
  · rw [get, get_remove, if_neg hb]
    exact h.other b hb
  · exact h.outbound

/-! ## Who has the slot -/

/-- The owner of the slot is a job that waits for its receiver, its message is all that is in the
outbound queue, and no other job claims to have one there. -/
structure SlotOk (q : CoopQueue) : Prop where
  nodup : (q.jobs.map (·.addr)).Nodup
  owner : ∀ a, q.sendOwner = some a → ∃ j, q.get a = some j ∧ j.replyPayloadQueued = true ∧
    (j.state = .nestedSend ∨ j.state = .needReply) ∧ q.outbound = [j.payload]
  free : q.sendOwner = none → q.outbound = []
  queued : ∀ a j, q.get a = some j → j.replyPayloadQueued = true → q.sendOwner = some a
  sending : ∀ a j, q.get a = some j → j.state = .nestedSend → q.sendOwner = some a

theorem SlotOk.of_owner (h : SlotOk q) (hj : q.get a = some j) (howner : q.sendOwner = some a) :
    j.replyPayloadQueued = true ∧ (j.state = .nestedSend ∨ j.state = .needReply) ∧
      q.outbound = [j.payload] := by
  obtain ⟨k, hk, hrest⟩ := h.owner a howner
  rw [hj] at hk
  cases hk
  exact hrest

theorem SlotOk.queued_iff (h : SlotOk q) (hj : q.get a = some j) :
    j.replyPayloadQueued = true ↔ q.sendOwner = some a :=
  ⟨h.queued a j hj, fun howner => (h.of_owner hj howner).1⟩

theorem SlotOk.not_queued (h : SlotOk q) (hj : q.get a = some j) (howner : q.sendOwner ≠ some a) :
    j.replyPayloadQueued = false :=
  Bool.eq_false_iff.2 fun hq => howner ((h.queued_iff hj).1 hq)

/-- A job that is neither sending nor replying does not have the slot. -/
theorem SlotOk.not_owner (h : SlotOk q) (hj : q.get a = some j) (hsend : j.state ≠ .nestedSend)
    (hreply : j.state ≠ .needReply) : q.sendOwner ≠ some a := by
  intro howner
  rcases (h.of_owner hj howner).2.1 with hs | hs
  · exact hsend hs
  · exact hreply hs

/-- **Moves keep the slot**: a job has the slot after a move when it says so, and then it waits for its
receiver. -/
theorem SlotOk.moved (h : SlotOk q) (hm : Moved q q' a j' own out)
    (hslot : own = true → q.sendOwner = none ∨ q.sendOwner = some a)
    (hjob : own = true → j' ≠ none)
    (hj : ∀ j, j' = some j → j.replyPayloadQueued = own ∧ (j.state = .nestedSend → own = true) ∧
      (own = true → j.state = .nestedSend ∨ j.state = .needReply)) : SlotOk q' := by
  have howner := hm.owner
  have hout := hm.outbound
  cases own with
  | true =>
    rw [if_pos rfl] at howner hout
    obtain ⟨k, rfl⟩ := Option.ne_none_iff_exists'.1 (hjob rfl)
    obtain ⟨hq, -, hs⟩ := hj k rfl
    -- nobody else has the slot
    have hothers : ∀ b i, q'.get b = some i → b ≠ a →
        i.replyPayloadQueued = false ∧ i.state ≠ .nestedSend := by
      intro b i hi hb
      rw [hm.other b hb] at hi
      have hno : q.sendOwner ≠ some b := by
        rcases hslot rfl with h | h
        · rw [h]
          exact nofun
        · rw [h]
          exact fun e => hb (Option.some.inj e).symm
      exact ⟨h.not_queued hi hno, fun hs => hno (h.sending b i hi hs)⟩
    refine ⟨hm.nodup h.nodup, fun b hb => ?_, fun hb => ?_, fun b i hi hqi => ?_,
      fun b i hi hsi => ?_⟩
    · rw [howner] at hb
      cases hb
      exact ⟨k, hm.self, hq, hs rfl, hout⟩
    · rw [howner] at hb
      cases hb
    · by_cases hb : b = a
      · rw [hb, howner]
      · rw [(hothers b i hi hb).1] at hqi
        cases hqi
    · by_cases hb : b = a
      · rw [hb, howner]
      · exact absurd hsi (hothers b i hi hb).2
  | false =>
    rw [if_neg Bool.false_ne_true] at howner hout
    have hkeep : ∀ b, b ≠ a → q.sendOwner = some b → q'.sendOwner = some b := by
      intro b hb hqb
      rw [howner, hqb, if_neg fun e => hb (Option.some.inj e)]
    refine ⟨hm.nodup h.nodup, fun b hb => ?_, fun hb => ?_, fun b i hi hqi => ?_,
      fun b i hi hsi => ?_⟩
    · by_cases ho : q.sendOwner = some a
      · rw [if_pos ho] at howner
        rw [howner] at hb
        cases hb
      · rw [if_neg ho] at howner hout
        rw [howner] at hb
        have hba : b ≠ a := fun e => ho (e ▸ hb)
        rw [hm.other b hba, hout]
        exact h.owner b hb
    · by_cases ho : q.sendOwner = some a
      · rw [if_pos ho] at hout
        exact hout
      · rw [if_neg ho] at howner hout
        rw [hout]
        exact h.free (howner.symm.trans hb)
    · by_cases hb : b = a
      · rw [hb] at hi
        rw [(hj i (hm.self.symm.trans hi)).1] at hqi
        cases hqi
      · rw [hm.other b hb] at hi
        exact hkeep b hb (h.queued b i hi hqi)
    · by_cases hb : b = a
      · rw [hb] at hi
        exact absurd ((hj i (hm.self.symm.trans hi)).2.1 hsi) Bool.false_ne_true
      · rw [hm.other b hb] at hi
        exact hkeep b hb (h.sending b i hi hsi)

/-! ## What the functions do -/

/-- One move after another. -/
theorem Moved.trans {j₁ : Option CoopJob} {own₁ : Bool} {out₁ : List (CStr × Message)} (h : SlotOk q)
    (h₁ : Moved q q' a j₁ own₁ out₁)
    (hslot : own₁ = true → q.sendOwner = none ∨ q.sendOwner = some a)
    (h₂ : Moved q' q'' a j' own out) : Moved q q'' a j' own (out₁ ++ out) := by
  refine ⟨fun hn => h₂.nodup (h₁.nodup hn), h₂.self,
    fun b hb => (h₂.other b hb).trans (h₁.other b hb), ?_, ?_, ?_⟩
  · rw [h₂.owner, h₁.owner]
    cases own₁ with
    | true =>
      rcases hslot rfl with ho | ho
      · simp [ho]
      · simp [ho]
    | false =>
      by_cases ho : q.sendOwner = some a
      · simp [ho]
      · simp [ho]
  · rw [h₂.outbound, h₁.owner, h₁.outbound]
    cases own₁ with
    | true =>
      rcases hslot rfl with ho | ho
      · simp [ho, h.free ho]
      · simp [ho]
    | false =>
      by_cases ho : q.sendOwner = some a
      · simp [ho]
      · simp [ho]
  · rw [h₂.delivered, h₁.delivered, List.append_assoc]

/-- A store to a job that does not have the slot. -/
theorem Moved.update (h : Moved q q' a (some j) false out) (hf : ∀ j, (f j).addr = j.addr) :
    Moved q (q'.update a f) a (some (f j)) false out where
  nodup hn := by
    rw [CoopQueue.update, keys_modify hf]
    exact h.nodup hn
  self := get_modify_self hf h.self
  other b hb := (get_modify_ne hf hb).trans (h.other b hb)
  owner := h.owner
  outbound := h.outbound
  delivered := h.delivered

theorem Moved.setResult (h : Moved q q' a (some j) false out) (result : Int) :
    Moved q (q'.ipcRpcCoopJobSetResult a result) a
      (some { j.nestedClear with result, state := .needReply }) false out := by
  rw [ipcRpcCoopJobSetResult, clear_other h.not_owner]
  exact h.update fun _ => rfl

/-- `ipc_rpc_coop_clear_send_owner` after a failed send of the owner. -/
theorem moved_clear_sent (h : SlotOk q) (hj : q.get a = some j) (howner : q.sendOwner = some a)
    (port : CStr) {e : ErrorT} (he : e ≠ .success) :
    Moved q ((q.afterSend port e).ipcRpcCoopClearSendOwner a) a
      (some { j with replyPayloadQueued := false }) false [] := by
  obtain ⟨hqueued, -, hout⟩ := h.of_owner hj howner
  have hsent : (q.afterSend port e).ipcRpcCoopClearSendOwner a =
      { q with
        jobs := modify (·.addr) q.jobs a fun j => { j with replyPayloadQueued := false }
        outbound := [], sendOwner := none } := by
    cases e with
    | success => exact absurd rfl he
    | portClosed =>
      have hj' : q.ipcRpcAbandonCurrentSendPayload.get a = some j := hj
      rw [afterSend, clear_owner hj' howner hqueued, ipcRpcAbandonCurrentSendPayload, hout]
      rfl
    | again | noMsg | inParam | rendezvos =>
      rw [afterSend, clear_owner hj howner hqueued, hout]
      rfl
  rw [hsent]
  refine moved_modify (f := fun j => { j with replyPayloadQueued := false }) hj (fun _ => rfl) rfl
    ?_ ?_ (List.append_nil _).symm
  · simp [howner]
  · simp [howner]

theorem moved_clear (h : SlotOk q) (hj : q.get a = some j) :
    Moved q (q.ipcRpcCoopClearSendOwner a) a (some { j with replyPayloadQueued := false }) false
      [] := by
  by_cases howner : q.sendOwner = some a
  · exact moved_clear_sent h hj howner [] (show ErrorT.again ≠ .success by decide)
  · have hsame : { j with replyPayloadQueued := false } = j := by
      rw [← h.not_queued hj howner]
    rw [clear_other howner, hsame]
    exact moved_refl hj ⟨nofun, fun h => absurd h howner⟩ nofun

/-- The owner's message was taken. -/
theorem moved_sent (h : SlotOk q) (hj : q.get a = some j) (howner : q.sendOwner = some a)
    (port : CStr) (hf : ∀ j, (f j).addr = j.addr) :
    Moved q ((q.afterSend port .success).slotSent a f) a
      (some { f j with replyPayloadQueued := false }) false [(port, j.payload)] := by
  obtain ⟨-, -, hout⟩ := h.of_owner hj howner
  refine moved_modify (f := fun j => { f j with replyPayloadQueued := false }) hj hf ?_ ?_ ?_ ?_
  · simp only [afterSend, hout, slotSent, CoopQueue.update]
  · simp [slotSent, howner]
  · simp [afterSend, hout, slotSent, CoopQueue.update, howner]
  · simp [afterSend, hout, slotSent, CoopQueue.update]

/-- The owner's message was dropped, as its port was closed. -/
theorem moved_closed (h : SlotOk q) (hj : q.get a = some j) (howner : q.sendOwner = some a)
    (port : CStr) (hf : ∀ j, (f j).addr = j.addr) :
    Moved q ((q.afterSend port .portClosed).slotSent a f) a
      (some { f j with replyPayloadQueued := false }) false [] := by
  obtain ⟨-, -, hout⟩ := h.of_owner hj howner
  refine moved_modify (f := fun j => { f j with replyPayloadQueued := false }) hj hf rfl ?_ ?_
    (List.append_nil _).symm
  · simp [slotSent, howner]
  · simp [afterSend, hout, slotSent, CoopQueue.update, howner, ipcRpcAbandonCurrentSendPayload]

/-- A job takes the free slot with a message. -/
theorem moved_take (h : SlotOk q) (hj : q.get a = some j) (hfree : q.sendOwner = none)
    (hf : ∀ j, (f j).addr = j.addr) :
    Moved q (q.takeSlot a (f j).payload f) a (some (f j)) true [] := by
  refine moved_modify hj hf rfl rfl ?_ (List.append_nil _).symm
  simp [takeSlot, enqueueMsgForSend, CoopQueue.update, h.free hfree]

/-- What a nested call on an idle job makes of it. -/
inductive CallOutcome (j : CoopJob) (server : CStr) (cookie : Nat) (env : CallEnv) :
    CoopJob → Bool → List (CStr × Message) → ErrorT → Prop where
  | failed (e : ErrorT) (hbad : ¬ env.Good) (he : e ≠ .success) :
    CallOutcome j server cookie env j.nestedClear false [] e
  | sent :
    CallOutcome j server cookie env
      { j with nestCookie := cookie, nestedServer := server, state := .nestedRecv } false
      [(server, ⟨j.req, server, .request (ipcRpcFormatNestToken cookie)⟩)] .success
  | waits :
    CallOutcome j server cookie env
      { j with
        nestCookie := cookie, nestedServer := server, state := .nestedSend
        replyPayloadQueued := true } true [] .again

theorem moved_idle (hj : q.get a = some j) (hfree : q.sendOwner = none) :
    Moved q q a (some j) false [] :=
  moved_refl hj ⟨nofun, fun ho => absurd (hfree.symm.trans ho) nofun⟩ nofun

theorem beginNestedCall_spec (h : SlotOk q) (hj : q.get a = some j) (hidle : j.state = .none)
    (hfree : q.sendOwner = none) (server : CStr) (env : CallEnv) :
    (q.beginNestedCall a j server env).1.seq = q.nextCookie ∧ ∃ j' own out,
      CallOutcome j server q.nextCookie env j' own out (q.beginNestedCall a j server env).2 ∧
      Moved q (q.beginNestedCall a j server env).1 a (some j') own out := by
  have hqueued : j.replyPayloadQueued = false :=
    h.not_queued hj fun ho => absurd (hfree.symm.trans ho) nofun
  have hidle' : j.state ≠ .nestedSend := by
    rw [hidle]
    decide
  -- the cookie is taken
  set q₁ := { q with seq := q.nextCookie }.update a fun j => { j with nestCookie := q.nextCookie }
    with hq₁
  have h₁ : Moved q q₁ a (some { j with nestCookie := q.nextCookie }) false [] :=
    let m := moved_idle hj hfree
    Moved.update (f := fun j => { j with nestCookie := q.nextCookie })
      ⟨m.nodup, m.self, m.other, m.owner, m.outbound, m.delivered⟩ fun _ => rfl
  have hok₁ : SlotOk q₁ := by
    refine h.moved h₁ nofun nofun fun k hk => ?_
    cases hk
    exact ⟨hqueued, fun hs => absurd hs hidle', nofun⟩
  have hfail := h₁.update (f := CoopJob.nestedClear) fun _ => rfl
  -- the request is in the outbound queue
  have h₂ := moved_take (f := fun j =>
    { j with nestedServer := server, replyPayloadQueued := true, state := .nestedSend })
    hok₁ h₁.self hfree fun _ => rfl
  set q₂ := q₁.takeSlot a ⟨j.req, server, .request (ipcRpcFormatNestToken q.nextCookie)⟩ fun j =>
    { j with nestedServer := server, replyPayloadQueued := true, state := .nestedSend } with hq₂
  have h₂ : Moved q₁ q₂ a (some
    { j with
      nestCookie := q.nextCookie, nestedServer := server, state := .nestedSend
      replyPayloadQueued := true }) true [] := h₂
  have hok₂ : SlotOk q₂ := by
    refine hok₁.moved h₂ (fun _ => .inl hfree) (fun _ => nofun) fun k hk => ?_
    cases hk
    exact ⟨rfl, fun _ => rfl, fun _ => .inl rfl⟩
  have h₁₂ := h₁.trans h nofun h₂
  have hsent : ∀ {q₃ : CoopQueue} {k : CoopJob} {out : List (CStr × Message)},
      Moved q₂ q₃ a (some k) false out → Moved q q₃ a (some k) false out :=
    fun hm => h₁₂.trans h (fun _ => .inl hfree) hm
  have hclear : ∀ {e : ErrorT}, e ≠ .success →
      Moved q (((q₂.afterSend server e).ipcRpcCoopClearSendOwner a).update a fun j =>
        { j.nestedClear with state := .none }) a (some j.nestedClear) false [] := by
    intro e he
    have hm := hsent (moved_clear_sent hok₂ h₂.self rfl server he)
    have hm := hm.update (f := fun j => { j.nestedClear with state := .none }) fun _ => rfl
    have hsame : { j.nestedClear with state := .none, replyPayloadQueued := false } = j.nestedClear := by
      rw [← hidle, ← hqueued]
      rfl
    rw [← hsame]
    exact hm
  have hbad : env.sent ≠ .success → env.sent ≠ .again → ¬ env.Good := by
    rintro h1 h2 ⟨-, -, -, h | h⟩
    · exact h1 h
    · exact h2 h
  unfold beginNestedCall
  simp only
  split
  · rename_i hlost
    refine ⟨rfl, _, _, _, .failed .rendezvos (fun hg => ?_) nofun, hfail⟩
    rw [hg.found, hg.made] at hlost
    simp at hlost
  · split
    · rename_i hlost
      exact ⟨rfl, _, _, _, .failed _ (fun hg => hlost hg.enqueued) hlost, hfail⟩
    · cases hs : env.sent with
      | success =>
        have hm := moved_sent (f := fun j => { j with state := .nestedRecv }) hok₂ h₂.self rfl server
          fun _ => rfl
        have hsame : { j with
            nestCookie := q.nextCookie, nestedServer := server, state := .nestedRecv
            replyPayloadQueued := false } =
            { j with nestCookie := q.nextCookie, nestedServer := server, state := .nestedRecv } := by
          rw [← hqueued]
        refine ⟨seq_afterSend q₂ server .success, _, _, _, .sent, ?_⟩
        rw [← hsame]
        exact hsent hm
      | again => exact ⟨rfl, _, _, _, .waits, h₁₂⟩
      | noMsg | portClosed | inParam | rendezvos =>
        exact ⟨(seq_clear _ a).trans (seq_afterSend q₂ server _), _, _, _,
          .failed _ (hbad (by rw [hs]; decide) (by rw [hs]; decide)) nofun, hclear nofun⟩

/-- **`ipc_rpc_coop_nested_call_va` on an idle job**: nothing while another job has the slot, else one
of the outcomes. -/
theorem nestedCall_spec (h : SlotOk q) (hj : q.get a = some j) (hidle : j.state = .none)
    (server : CStr) (env : CallEnv) :
    (q.ipcRpcCoopNestedCall a server env = (q, .again) ∧ ∃ b, b ≠ a ∧ q.sendOwner = some b) ∨
    (q.sendOwner = none ∧ (q.ipcRpcCoopNestedCall a server env).1.seq = q.nextCookie ∧
      ∃ j' own out,
        CallOutcome j server q.nextCookie env j' own out (q.ipcRpcCoopNestedCall a server env).2 ∧
        Moved q (q.ipcRpcCoopNestedCall a server env).1 a (some j') own out) := by
  have hno : q.sendOwner ≠ some a := h.not_owner hj (by rw [hidle]; decide) (by rw [hidle]; decide)
  cases howner : q.sendOwner with
  | some b =>
    rw [howner] at hno
    have hb : b ≠ a := fun e => hno (congrArg some e)
    refine .inl ⟨?_, b, hb, rfl⟩
    simp only [ipcRpcCoopNestedCall, hj, howner]
    rw [if_pos ⟨nofun, hno⟩]
  | none =>
    have hcall : q.ipcRpcCoopNestedCall a server env = q.beginNestedCall a j server env := by
      simp [ipcRpcCoopNestedCall, hj, howner, hidle]
    rw [hcall]
    exact .inr ⟨rfl, beginNestedCall_spec h hj hidle howner server env⟩

/-- The reply of the owner is sent. -/
theorem sendClientReply_spec (h : SlotOk q) (hj : q.get a = some j) (howner : q.sendOwner = some a)
    (env : PollEnv) :
    ∃ own out, Moved q (q.sendClientReply a j.replyPort env).1 a
        (some { j with replyPayloadQueued := own }) own out ∧
      (out = [] ∨ (out = [(j.replyPort, j.payload)] ∧
        (q.sendClientReply a j.replyPort env).2 = .success)) ∧
      ((q.sendClientReply a j.replyPort env).2 = .success → own = false) := by
  obtain ⟨hqueued, -, hout⟩ := h.of_owner hj howner
  have hstay : Moved q q a (some { j with replyPayloadQueued := true }) true [] := by
    have hsame : { j with replyPayloadQueued := true } = j := by
      rw [← hqueued]
    rw [hsame]
    exact moved_refl hj ⟨fun _ => howner, fun _ => rfl⟩ fun _ => hout
  unfold sendClientReply
  split
  · have hm := moved_clear h hj
    exact ⟨false, [], hm, .inl rfl, fun _ => rfl⟩
  · simp only
    cases hs : env.sent with
    | success =>
      have hm := moved_sent (f := id) h hj howner j.replyPort fun _ => rfl
      exact ⟨false, _, hm, .inr ⟨rfl, rfl⟩, fun _ => rfl⟩
    | portClosed =>
      have hm := moved_closed (f := id) h hj howner j.replyPort fun _ => rfl
      exact ⟨false, [], hm, .inl rfl, fun _ => rfl⟩
    | again => exact ⟨true, [], hstay, .inl rfl, nofun⟩
    | noMsg | inParam | rendezvos =>
      exact ⟨false, [], moved_clear_sent h hj howner j.replyPort nofun, .inl rfl, fun _ => rfl⟩

theorem payload_reply (hstate : j.state = .needReply) :
    j.payload = ⟨j.req, j.replyPort, .reply j.result⟩ := by
  rw [CoopJob.payload, hstate]

/-- **`ipc_rpc_coop_try_client_reply`** on a job with a result: the job waits with the slot or is without
it, and the reply has been delivered at most when the function reports success. -/
theorem tryClientReply_spec (h : SlotOk q) (hj : q.get a = some j) (hstate : j.state = .needReply)
    (env : PollEnv) :
    ∃ own out, Moved q (q.ipcRpcCoopTryClientReply a env).1 a
        (some { j with replyPayloadQueued := own }) own out ∧
      (own = true → q.sendOwner = none ∨ q.sendOwner = some a) ∧
      (out = [] ∨ (out = [(j.replyPort, ⟨j.req, j.replyPort, .reply j.result⟩)] ∧
        (q.ipcRpcCoopTryClientReply a env).2 = .success)) ∧
      ((q.ipcRpcCoopTryClientReply a env).2 = .success → own = false) := by
  have hstay : q.sendOwner ≠ some a →
      Moved q q a (some { j with replyPayloadQueued := false }) false [] := by
    intro hno
    have hsame : { j with replyPayloadQueued := false } = j := by
      rw [← h.not_queued hj hno]
    rw [hsame]
    exact moved_refl hj ⟨nofun, fun ho => absurd ho hno⟩ nofun
  unfold ipcRpcCoopTryClientReply
  simp only [hj, if_neg (not_not_intro hstate)]
  split
  · rename_i hbusy
    exact ⟨false, [], hstay hbusy.2, nofun, .inl rfl, nofun⟩
  · rename_i hfree
    split
    · rename_i hqueued
      have howner := h.queued a j hj hqueued
      obtain ⟨own, out, hm, hout, hdone⟩ := sendClientReply_spec h hj howner env
      rw [payload_reply hstate] at hout
      exact ⟨own, out, hm, fun _ => .inr howner, hout, hdone⟩
    · rename_i hqueued
      have hno : q.sendOwner ≠ some a := fun ho => hqueued ((h.queued_iff hj).2 ho)
      have hnone : q.sendOwner = none := by
        by_contra hne
        exact hfree ⟨hne, hno⟩
      split
      · exact ⟨false, [], hstay hno, nofun, .inl rfl, fun _ => rfl⟩
      · split
        · exact ⟨false, [], hstay hno, nofun, .inl rfl, nofun⟩
        · split
          · rename_i herr
            exact ⟨false, [], hstay hno, nofun, .inl rfl, fun e => absurd e herr⟩
          · -- the reply goes into the outbound queue
            have h₁ := moved_take (f := fun j => { j with replyPayloadQueued := true }) h hj hnone
              fun _ => rfl
            rw [payload_reply (j := { j with replyPayloadQueued := true }) hstate] at h₁
            have hok := h.moved h₁ (fun _ => .inl hnone) (fun _ => nofun) fun k hk => by
              cases hk
              exact ⟨rfl, fun _ => rfl, fun _ => .inr hstate⟩
            obtain ⟨own, out, hm, hout, hdone⟩ := sendClientReply_spec hok h₁.self rfl env
            rw [payload_reply (j := { j with replyPayloadQueued := true }) hstate] at hout
            exact ⟨own, out, h₁.trans h (fun _ => .inl hnone) hm, fun _ => .inl hnone, hout, hdone⟩

/-- What one round of `ipc_rpc_coop_queue_poll` makes of a job. -/
inductive PollOutcome (j : CoopJob) (env : PollEnv) :
    Option CoopJob → Bool → List (CStr × Message) → Prop where
  | stay : PollOutcome j env (some j) j.replyPayloadQueued []
  | sent (hstate : j.state = .nestedSend) :
    PollOutcome j env (some { j with state := .nestedRecv, replyPayloadQueued := false }) false
      [(j.nestedServer, j.payload)]
  | lost (hstate : j.state = .nestedSend)
      (hlost : env.found = false ∨ (env.sent ≠ .success ∧ env.sent ≠ .again)) :
    PollOutcome j env
      (some { j.nestedClear with
        result := -Errno.EIO, state := .needReply, replyPayloadQueued := false }) false []
  | reply (own : Bool) (hstate : j.state = .needReply) :
    PollOutcome j env (some { j with replyPayloadQueued := own }) own []
  | released (out : List (CStr × Message)) (hstate : j.state = .needReply)
      (hout : out = [] ∨ out = [(j.replyPort, ⟨j.req, j.replyPort, .reply j.result⟩)]) :
    PollOutcome j env none false out

/-- **One round of the poll loop**. -/
theorem pollJob_spec (h : SlotOk q) (hj : q.get a = some j) (env : PollEnv) :
    ∃ j' own out, PollOutcome j env j' own out ∧ Moved q (q.pollJob a env) a j' own out ∧
      (own = true → q.sendOwner = none ∨ q.sendOwner = some a) := by
  have hstay : Moved q q a (some j) j.replyPayloadQueued [] :=
    moved_refl hj (h.queued_iff hj) fun hq => (h.of_owner hj (h.queued a j hj hq)).2.2
  have hslot : j.replyPayloadQueued = true → q.sendOwner = none ∨ q.sendOwner = some a :=
    fun hq => .inr (h.queued a j hj hq)
  unfold pollJob
  simp only [hj]
  cases hstate : j.state with
  | none => exact ⟨_, _, _, .stay, hstay, hslot⟩
  | nestedRecv => exact ⟨_, _, _, .stay, hstay, hslot⟩
  | nestedSend =>
    have howner := h.sending a j hj hstate
    simp only
    rw [if_neg (not_not_intro howner)]
    have hfail : ∀ {q₁ : CoopQueue}, Moved q q₁ a (some { j with replyPayloadQueued := false }) false [] →
        Moved q ((q₁.update a fun j => { j.nestedClear with state := .none }).ipcRpcCoopJobSetResult a
          (-Errno.EIO)) a (some { j.nestedClear with
            result := -Errno.EIO, state := .needReply, replyPayloadQueued := false }) false [] := by
      intro q₁ hm
      have hm := hm.update (f := fun j => { j.nestedClear with state := .none }) fun _ => rfl
      exact hm.setResult (-Errno.EIO)
    split
    · rename_i hfound
      refine ⟨_, _, _, .lost hstate (.inl (by simpa using hfound)), ?_, nofun⟩
      exact hfail (moved_clear h hj)
    · cases hs : env.sent with
      | success =>
        have hm := moved_sent (f := fun j => { j with state := .nestedRecv }) h hj howner
          j.nestedServer fun _ => rfl
        exact ⟨_, _, _, .sent hstate, hm, nofun⟩
      | again => exact ⟨_, _, _, .stay, hstay, hslot⟩
      | noMsg | portClosed | inParam | rendezvos =>
        refine ⟨_, _, _, .lost hstate (.inr (by rw [hs]; decide)), ?_, nofun⟩
        exact hfail (moved_clear_sent h hj howner j.nestedServer nofun)
  | needReply =>
    obtain ⟨own, out, hm, hown, hout, hdone⟩ := tryClientReply_spec h hj hstate env
    simp only
    split
    · rename_i hok
      rw [hdone hok] at hm
      refine ⟨_, _, out, .released out hstate ?_, hm.release, nofun⟩
      rcases hout with hout | hout
      · exact .inl hout
      · exact .inr hout.1
    · rename_i herr
      rcases hout with rfl | hout
      · exact ⟨_, _, _, .reply own hstate, hm, hown⟩
      · exact absurd hout.2 herr

/-- The job that a nest reply is for. -/
theorem applyNestResp_cases (h : SlotOk q) (cookie : Nat) (r : Int) (resume : Bool) :
    (q.nestJob cookie = none ∧ q.ipcRpcCoopTryApplyNestResp cookie r resume = (q, none)) ∨
    ∃ a j, q.nestJob cookie = some j ∧ j.addr = a ∧ q.get a = some j ∧ j.state = .nestedRecv ∧
      j.nestCookie = cookie ∧
      (q.ipcRpcCoopTryApplyNestResp cookie r resume).2 = (if resume then some a else none) ∧
      Moved q (q.ipcRpcCoopTryApplyNestResp cookie r resume).1 a
        (some { j.nestedClear with
          nestedResult := r
          result := if resume then j.result else r
          state := if resume then .none else .needReply }) false [] := by
  unfold ipcRpcCoopTryApplyNestResp
  cases hfind : q.nestJob cookie with
  | none => exact .inl ⟨rfl, rfl⟩
  | some j =>
    have hp := List.find?_some hfind
    rw [decide_eq_true_eq] at hp
    obtain ⟨hs, hc⟩ := hp
    have hj : q.get j.addr = some j := (mem_iff h.nodup).1 (List.mem_of_find?_eq_some hfind)
    have hno : q.sendOwner ≠ some j.addr :=
      h.not_owner hj (by rw [hs]; decide) (by rw [hs]; decide)
    have hm : Moved q q j.addr (some j) false [] :=
      moved_refl hj ⟨nofun, fun ho => absurd ho hno⟩ nofun
    have hm := hm.update (f := fun j => { j.nestedClear with nestedResult := r, state := .none })
      fun _ => rfl
    refine .inr ⟨j.addr, j, rfl, rfl, hj, hs, hc, ?_⟩
    cases resume with
    | true => exact ⟨rfl, hm⟩
    | false => exact ⟨rfl, hm.setResult r⟩

/-! ## The operations keep the slot -/

theorem get_create (hnew : q.get a = none) (req : Nat) (port : CStr) (b : Nat) :
    (q.ipcRpcCoopJobCreate a req port).get b =
      if b = a then some { addr := a, req, replyPort := port } else q.get b := by
  rw [get, ipcRpcCoopJobCreate, get_concat]
  by_cases hb : b = a
  · rw [hb, show Keyed.get (·.addr) q.jobs a = none from hnew]
    simp
  · simp only [if_neg (Ne.symm hb), Option.or_none, if_neg hb]
    rfl

theorem SlotOk.create (h : SlotOk q) (hnew : q.get a = none) (req : Nat) (port : CStr) :
    SlotOk (q.ipcRpcCoopJobCreate a req port) := by
  have hget := get_create hnew req port
  have hold : ∀ b i, (q.ipcRpcCoopJobCreate a req port).get b = some i →
      (i.replyPayloadQueued = true ∨ i.state = .nestedSend) → q.get b = some i := by
    intro b i hi hflag
    rw [hget] at hi
    split at hi
    · cases hi
      rcases hflag with hf | hf
      · cases hf
      · cases hf
    · exact hi
  refine ⟨nodup_concat h.nodup hnew, fun b hb => ?_, h.free, fun b i hi hq => ?_,
    fun b i hi hs => ?_⟩
  · obtain ⟨i, hi, hrest⟩ := h.owner b hb
    refine ⟨i, ?_, hrest⟩
    rw [hget, if_neg, hi]
    rintro rfl
    rw [hnew] at hi
    cases hi
  · exact h.queued b i (hold b i hi (.inl hq)) hq
  · exact h.sending b i (hold b i hi (.inr hs)) hs

theorem SlotOk.nestedCall (h : SlotOk q) (hj : q.get a = some j) (hidle : j.state = .none)
    (server : CStr) (env : CallEnv) : SlotOk (q.ipcRpcCoopNestedCall a server env).1 := by
  have hno : q.sendOwner ≠ some a := h.not_owner hj (by rw [hidle]; decide) (by rw [hidle]; decide)
  have hqueued := h.not_queued hj hno
  rcases nestedCall_spec h hj hidle server env with ⟨hbusy, -⟩ | ⟨hfree, -, j', own, out, ho, hm⟩
  · rw [hbusy]
    exact h
  · refine h.moved hm (fun _ => .inl hfree) (fun _ => nofun) fun k hk => ?_
    cases hk
    generalize (q.ipcRpcCoopNestedCall a server env).2 = e at ho
    cases ho with
    | failed e hbad he =>
      refine ⟨hqueued, fun hs => ?_, nofun⟩
      exact absurd (hidle.symm.trans hs) nofun
    | sent => exact ⟨hqueued, nofun, nofun⟩
    | waits => exact ⟨rfl, fun _ => rfl, fun _ => .inl rfl⟩

theorem moved_setResult (h : SlotOk q) (hj : q.get a = some j) (result : Int) :
    Moved q (q.ipcRpcCoopJobSetResult a result) a
      (some { j.nestedClear with result, state := .needReply, replyPayloadQueued := false }) false
      [] :=
  (moved_clear h hj).update fun _ => rfl

theorem moved_release (h : SlotOk q) (hj : q.get a = some j) :
    Moved q (q.ipcRpcCoopJobRelease a) a none false [] := by
  have hm := (moved_clear h hj).release
  have hclear : (q.ipcRpcCoopClearSendOwner a).ipcRpcCoopClearSendOwner a =
      q.ipcRpcCoopClearSendOwner a := clear_other (moved_clear h hj).not_owner
  simp only [ipcRpcCoopJobRelease, hclear] at hm ⊢
  exact hm

theorem SlotOk.setResult (h : SlotOk q) (hj : q.get a = some j) (r : Int) :
    SlotOk (q.ipcRpcCoopJobSetResult a r) := by
  refine h.moved (moved_setResult h hj r) nofun nofun fun k hk => ?_
  cases hk
  exact ⟨rfl, nofun, nofun⟩

theorem SlotOk.release (h : SlotOk q) (hj : q.get a = some j) :
    SlotOk (q.ipcRpcCoopJobRelease a) :=
  h.moved (moved_release h hj) nofun nofun nofun

theorem SlotOk.applyNestResp (h : SlotOk q) (cookie : Nat) (r : Int) (resume : Bool) :
    SlotOk (q.ipcRpcCoopTryApplyNestResp cookie r resume).1 := by
  rcases applyNestResp_cases h cookie r resume with ⟨-, hsame⟩ | ⟨a, j, -, -, hj, hs, -, -, hm⟩
  · rw [hsame]
    exact h
  · have hno : q.sendOwner ≠ some a := h.not_owner hj (by rw [hs]; decide) (by rw [hs]; decide)
    have hqueued := h.not_queued hj hno
    refine h.moved hm nofun nofun fun k hk => ?_
    cases hk
    refine ⟨hqueued, fun hs => ?_, nofun⟩
    cases resume with
    | true => cases hs
    | false => cases hs

theorem SlotOk.clientReply (h : SlotOk q) (hj : q.get a = some j) (hstate : j.state = .needReply)
    (env : PollEnv) : SlotOk (q.ipcRpcCoopTryClientReply a env).1 := by
  obtain ⟨own, out, hm, hslot, -⟩ := tryClientReply_spec h hj hstate env
  refine h.moved hm hslot (fun _ => nofun) fun k hk => ?_
  cases hk
  exact ⟨rfl, fun hs => absurd (hstate.symm.trans hs) nofun, fun _ => .inr hstate⟩

theorem SlotOk.pollJob (h : SlotOk q) (a : Nat) (env : PollEnv) : SlotOk (q.pollJob a env) := by
  cases hj : q.get a with
  | none =>
    rw [CoopQueue.pollJob]
    simp only [hj]
    exact h
  | some j =>
    obtain ⟨j', own, out, ho, hm, hslot⟩ := pollJob_spec h hj env
    cases ho with
    | stay =>
      refine h.moved hm hslot (fun _ => nofun) fun k hk => ?_
      cases hk
      refine ⟨rfl, fun hs => ?_, fun hq => ?_⟩
      · exact (h.queued_iff hj).2 (h.sending a j hj hs)
      · exact (h.of_owner hj (h.queued a j hj hq)).2.1
    | sent hstate =>
      refine h.moved hm nofun nofun fun k hk => ?_
      cases hk
      exact ⟨rfl, nofun, nofun⟩
    | lost hstate hlost =>
      refine h.moved hm nofun nofun fun k hk => ?_
      cases hk
      exact ⟨rfl, nofun, nofun⟩
    | reply own hstate =>
      refine h.moved hm hslot (fun _ => nofun) fun k hk => ?_
      cases hk
      exact ⟨rfl, fun hs => absurd (hstate.symm.trans hs) nofun, fun _ => .inr hstate⟩
    | released out hstate hout => exact h.moved hm nofun nofun nofun

theorem seq_poll (q : CoopQueue) (env : Nat → PollEnv) : (q.ipcRpcCoopQueuePoll env).seq = q.seq :=
  Run.inv_of_step (I := fun q' => q'.seq = q.seq)
    (fun q' a h => (seq_pollJob q' a (env a)).trans h) _ rfl

theorem SlotOk.poll (h : SlotOk q) (env : Nat → PollEnv) : SlotOk (q.ipcRpcCoopQueuePoll env) :=
  Run.inv_of_step (fun _ a h => h.pollJob a (env a)) _ h

/-! ## Runs -/

/-- The functions of the queue, with what the core answers. A job is created at a free address. -/
inductive QueueOp where
  | create (a req : Nat) (replyPort : CStr)
  | nestedCall (a : Nat) (server : CStr) (env : CallEnv)
  | setResult (a : Nat) (result : Int)
  | release (a : Nat)
  | nestResp (cookie : Nat) (nestedResult : Int) (resume : Bool)
  | clientReply (a : Nat) (env : PollEnv)
  | poll (env : Nat → PollEnv)

def step (q : CoopQueue) : QueueOp → CoopQueue
  | .create a req replyPort =>
    if replyPort = [] ∨ (q.get a).isSome then q else q.ipcRpcCoopJobCreate a req replyPort
  | .nestedCall a server env => (q.ipcRpcCoopNestedCall a server env).1
  | .setResult a result => if (q.get a).isSome then q.ipcRpcCoopJobSetResult a result else q
  | .release a => if (q.get a).isSome then q.ipcRpcCoopJobRelease a else q
  | .nestResp cookie nestedResult resume =>
    (q.ipcRpcCoopTryApplyNestResp cookie nestedResult resume).1
  | .clientReply a env => (q.ipcRpcCoopTryClientReply a env).1
  | .poll env => q.ipcRpcCoopQueuePoll env

/-- Nested calls are made on jobs in state NONE. -/
def OnIdle (q : CoopQueue) : QueueOp → Prop
  | .nestedCall a _ _ => ∀ j ∈ q.get a, j.state = .none
  | _ => True

instance (q : CoopQueue) : (op : QueueOp) → Decidable (OnIdle q op)
  | .nestedCall a _ _ => inferInstanceAs (Decidable (∀ j ∈ q.get a, j.state = .none))
  | .create .. | .setResult .. | .release _ | .nestResp .. | .clientReply .. | .poll _ =>
    isTrue trivial

/-- **One sender**: at most one job has a message in the outbound queue, it is the owner of the slot and
in the queue, its message is all there is, and every job that sends a nested request is the owner. -/
structure OneSender (q : CoopQueue) : Prop where
  atMostOne : ∀ j ∈ q.jobs, ∀ k ∈ q.jobs, j.replyPayloadQueued = true →
    k.replyPayloadQueued = true → j = k
  queued_iff : ∀ j ∈ q.jobs, j.replyPayloadQueued = true ↔ q.sendOwner = some j.addr
  outbound : ∀ j ∈ q.jobs, q.sendOwner = some j.addr → q.outbound = [j.payload]
  free : q.sendOwner = none → q.outbound = []
  sending : ∀ j ∈ q.jobs, j.state = .nestedSend → q.sendOwner = some j.addr
  present : ∀ a, q.sendOwner = some a → ∃ j ∈ q.jobs, j.addr = a

theorem SlotOk.oneSender (h : SlotOk q) : OneSender q := by
  have hget : ∀ j ∈ q.jobs, q.get j.addr = some j := fun j hj => (mem_iff h.nodup).1 hj
  refine ⟨fun j hj k hk hqj hqk => ?_, fun j hj => h.queued_iff (hget j hj),
    fun j hj ho => (h.of_owner (hget j hj) ho).2.2, h.free,
    fun j hj => h.sending j.addr j (hget j hj), fun a ho => ?_⟩
  · have hoj := h.queued j.addr j (hget j hj) hqj
    have hok := h.queued k.addr k (hget k hk) hqk
    have haddr : j.addr = k.addr := Option.some.inj (hoj.symm.trans hok)
    exact List.inj_on_of_nodup_map h.nodup hj hk haddr
  · obtain ⟨j, hj, -⟩ := h.owner a ho
    exact ⟨j, mem_of_get hj, key_of_get hj⟩

theorem slotOk_init : SlotOk {} := by
  refine ⟨List.nodup_nil, nofun, fun _ => rfl, ?_, ?_⟩
  · intro a j hj
    cases hj
  · intro a j hj
    cases hj

/-- **The step lemma**. -/
theorem slotOk_step (q : CoopQueue) (op : QueueOp) (h : SlotOk q) (hok : OnIdle q op) :
    SlotOk (q.step op) := by
  cases op with
  | create a req port =>
    rw [step]
    split
    · exact h
    · rename_i hnew
      exact h.create (by simpa using fun hp => hnew (.inr hp)) req port
  | nestedCall a server env =>
    cases hj : q.get a with
    | none =>
      rw [step, ipcRpcCoopNestedCall]
      simp only [hj]
      exact h
    | some j => exact h.nestedCall hj (hok j hj) server env
  | setResult a r =>
    rw [step]
    split
    · rename_i hsome
      obtain ⟨j, hj⟩ := Option.isSome_iff_exists.1 hsome
      exact h.setResult hj r
    · exact h
  | release a =>
    rw [step]
    split
    · rename_i hsome
      obtain ⟨j, hj⟩ := Option.isSome_iff_exists.1 hsome
      exact h.release hj
    · exact h
  | nestResp cookie r resume => exact h.applyNestResp cookie r resume
  | clientReply a env =>
    by_cases hreply : ∃ j, q.get a = some j ∧ j.state = .needReply
    · obtain ⟨j, hj, hstate⟩ := hreply
      exact h.clientReply hj hstate env
    · have hsame : q.ipcRpcCoopTryClientReply a env = (q, .inParam) := by
        unfold ipcRpcCoopTryClientReply
        split
        · rfl
        · rename_i j hj
          rw [if_pos fun hstate => hreply ⟨j, hj, hstate⟩]
      rw [step, hsame]
      exact h
  | poll env => exact h.poll env

/-- **The send slot** in every run of the queue that makes nested calls on idle jobs. -/
theorem one_sender_of_calls {ops : List QueueOp} (hg : Run.Guarded step OnIdle {} ops) :
    OneSender (ops.foldl step {}) :=
  (Run.inv_of_guarded slotOk_step slotOk_init hg).oneSender

/-- Two jobs: the first parks with its nested request, the second's reply waits for the slot, and the
first one fails at last. -/
theorem one_sender_of_calls_lost :
    OneSender (List.foldl step {}
      [.create 10 0 (cstr "client0"), .create 11 1 (cstr "client1"),
        .nestedCall 10 (cstr "server") { sent := .again }, .setResult 11 5,
        .poll fun _ => { sent := .again }, .poll fun _ => { sent := .portClosed },
        .create 12 2 (cstr "client2"), .nestedCall 12 (cstr "server") { sent := .success },
        .nestResp 2 7 true, .nestedCall 12 (cstr "server") { sent := .again }]) :=
  one_sender_of_calls (by decide +kernel)

end CoopQueue

end Ipc
