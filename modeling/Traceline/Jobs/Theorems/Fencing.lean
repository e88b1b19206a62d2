import Traceline.Jobs.Theorems.Step
import Traceline.Library.Machine

namespace Jobs

-- The leases granted on a job, oldest first.
def grants (es : List (Event sig)) (id : String) : List JobRecord :=
  (es.filterMap grant?).filter (·.job_id = id)

-- The lease generations of a job that a worker completed or failed.
def settlements (es : List (Event sig)) (id : String) : List ℕ :=
  ((es.filterMap settled?).filter (·.1 = id)).map Prod.snd

@[simp]
theorem grants_snoc (es : List (Event sig)) (e : Event sig) (id : String) :
    grants (es ++ [e]) id = grants es id ++ ((grant? e).toList.filter (·.job_id = id)) := by
  cases h : grant? e <;> simp [grants, h]

@[simp]
theorem settlements_snoc (es : List (Event sig)) (e : Event sig) (id : String) :
    settlements (es ++ [e]) id =
      settlements es id ++ ((settled? e).toList.filter (·.1 = id)).map Prod.snd := by
  cases h : settled? e <;> simp [settlements, h]

namespace JobRecord

-- What the columns of a row have to do with each other.
structure Wf (j : JobRecord) : Prop where
  attempts_le : j.attempts ≤ j.max_attempts
  queued_lt   : j.status = .queued → j.attempts < j.max_attempts
  worker      : j.lease_worker_id.isSome ↔ j.status = .leased
  expires     : j.lease_expires_at.isSome ↔ j.status = .leased
  not_queued  : j.cancellation_requested → j.status ≠ .queued

variable {j : JobRecord} {now lease_until : Time} {w : String} {st : Status}

theorem next_status_ne_leased : j.next_status ≠ .leased := by
  unfold next_status
  split
  · simp
  · split <;> simp

theorem Wf.expire (h : j.Wf) : (j.expire now).Wf where
  attempts_le := h.attempts_le
  queued_lt hq := by
    simp only [JobRecord.expire, next_status] at hq ⊢
    split at hq
    case isTrue => cases hq
    case isFalse =>
      split at hq
      case isTrue    => cases hq
      case isFalse h => exact Nat.lt_of_not_ge h
  worker     := by simp [JobRecord.expire, next_status_ne_leased]
  expires    := by simp [JobRecord.expire, next_status_ne_leased]
  not_queued := fun hc => by simp_all [JobRecord.expire, next_status]

theorem Wf.expireIf (h : j.Wf) : (expireIf now j).Wf := by
  unfold Jobs.expireIf
  split
  case isTrue  => exact h.expire
  case isFalse => exact h

theorem claimable_iff : j.claimable ↔ j.status = .queued ∧ j.cancellation_requested = false := by
  simp [claimable]

theorem holds_iff {fence : ℕ} :
    j.holds fence now ↔ j.status = .leased ∧ j.fence = fence ∧
      (∃ t ∈ j.lease_expires_at, now < t) ∧ j.cancellation_requested = false := by
  simp [holds, Option.any_eq_true]

theorem Wf.grant (h : j.Wf) (hc : j.claimable) : (j.grant w lease_until now).Wf where
  attempts_le := h.queued_lt (claimable_iff.mp hc).left
  queued_lt   := nofun
  worker      := by simp [JobRecord.grant]
  expires     := by simp [JobRecord.grant]
  not_queued  := by simp [JobRecord.grant]

theorem Wf.extend (h : j.Wf) (hl : j.status = .leased) : (j.extend lease_until now).Wf where
  attempts_le := h.attempts_le
  queued_lt   := h.queued_lt
  worker      := h.worker
  expires     := by simp [JobRecord.extend, hl]
  not_queued  := h.not_queued

theorem Wf.release (h : j.Wf) (hq : st ≠ .queued) (hl : st ≠ .leased) : (j.release st now).Wf where
  attempts_le := h.attempts_le
  queued_lt   := fun h => absurd h hq
  worker      := by simp [JobRecord.release, hl]
  expires     := by simp [JobRecord.release, hl]
  not_queued  := fun _ => hq

theorem Wf.request_cancel (h : j.Wf) : (j.request_cancel now).Wf := by
  unfold JobRecord.request_cancel
  dsimp only
  split
  case isTrue => exact ⟨h.attempts_le, nofun, by simp [JobRecord.release], by simp [JobRecord.release], nofun⟩
  case isFalse hq => exact ⟨h.attempts_le, h.queued_lt, h.worker, h.expires, fun _ => hq⟩

end JobRecord

-- What the history of a job says about its row.
structure Tracked (gs : List JobRecord) (ss : List ℕ) (j : JobRecord) : Prop where
  wf      : j.Wf
  fences  : gs.map JobRecord.fence = List.range' 1 j.fence
  holder  : j.status = .leased →
    gs.getLast?.map JobRecord.lease_worker_id = some j.lease_worker_id
  settled : ss = [] ∨ j.status.Terminal ∧ ss.length = 1

def RowInv (gs : List JobRecord) (ss : List ℕ) : Option JobRecord → Prop
  | none   => gs = [] ∧ ss = []
  | some j => Tracked gs ss j

@[simp]
theorem rowInv_some {gs : List JobRecord} {ss : List ℕ} {j : JobRecord} :
    RowInv gs ss (some j) ↔ Tracked gs ss j :=
  Iff.rfl

namespace Tracked

variable {gs : List JobRecord} {ss : List ℕ} {j j' : JobRecord}

-- A step that neither grants nor settles keeps the history in step with the row.
theorem update (h : Tracked gs ss j) (hw : j'.Wf) (hf : j'.fence = j.fence)
    (hl : j'.status = .leased → j.status = .leased ∧ j'.lease_worker_id = j.lease_worker_id)
    (ht : ¬j.status.Terminal) : Tracked gs ss j' where
  wf      := hw
  fences  := hf ▸ h.fences
  holder  := fun h' => (hl h').right ▸ h.holder (hl h').left
  settled := .inl <| h.settled.resolve_right fun hs => ht hs.left

theorem not_settled (h : Tracked gs ss j) (ht : ¬j.status.Terminal) : ss = [] :=
  h.settled.resolve_right fun hs => ht hs.left

end Tracked

theorem not_terminal_of_leased {st : Status} (h : st = .leased) : ¬st.Terminal := by
  simp [Status.Terminal, h]

theorem not_terminal_of_queued {st : Status} (h : st = .queued) : ¬st.Terminal := by
  simp [Status.Terminal, h]

namespace JobRecord

variable {j : JobRecord} {now : Time}

theorem expired_leased (h : j.expired now) : j.status = .leased := by
  simp [expired] at h
  exact h.left

theorem expireIf_fence : (expireIf now j).fence = j.fence := by
  unfold Jobs.expireIf
  split <;> rfl

-- A row can be claimed when it waits in the queue, or after its lease ran out.
theorem not_terminal_of_claimable (h : (expireIf now j).claimable) : ¬j.status.Terminal := by
  unfold Jobs.expireIf at h
  split at h
  case isTrue he => exact not_terminal_of_leased <| expired_leased he
  case isFalse   => exact not_terminal_of_queued (claimable_iff.mp h).left

theorem request_cancel_leased (h : (j.request_cancel now).status = .leased) :
    j.status = .leased ∧ (j.request_cancel now).lease_worker_id = j.lease_worker_id := by
  unfold request_cancel at h ⊢
  dsimp only at h ⊢
  split at h
  case isTrue  => cases h
  case isFalse => simp_all

theorem request_cancel_fence : (j.request_cancel now).fence = j.fence := by
  unfold request_cancel
  dsimp only
  split <;> rfl

end JobRecord

namespace Tracked

variable {gs : List JobRecord} {ss : List ℕ} {j j' : JobRecord} {now lease_until : Time} {w : String}

theorem create (hq : j.status = .queued) (ha : j.attempts = 0) (hf : j.fence = 0)
    (hm : 1 ≤ j.max_attempts) (hw : j.lease_worker_id = none) (he : j.lease_expires_at = none)
    (hc : j.cancellation_requested = false) : Tracked [] [] j where
  wf := {
    attempts_le := by omega
    queued_lt   := by omega
    worker      := by simp [hw, hq]
    expires     := by simp [he, hq]
    not_queued  := by simp [hc]
  }
  fences  := by simp [hf]
  holder  := by simp [hq]
  settled := .inl rfl

theorem grant (h : Tracked gs ss j) (hc : (expireIf now j).claimable) :
    Tracked (gs ++ [(expireIf now j).grant w lease_until now]) ss
      ((expireIf now j).grant w lease_until now) where
  wf      := h.wf.expireIf.grant hc
  fences  := by
    simp [h.fences, JobRecord.grant, JobRecord.expireIf_fence, List.range'_concat, Nat.add_comm]
  holder  := by simp
  settled := .inl <| h.not_settled <| JobRecord.not_terminal_of_claimable hc

theorem settle {fence : ℕ} (h : Tracked gs ss j) (hl : j.status = .leased)
    (ht : j'.status.Terminal) (ha : j'.attempts = j.attempts)
    (hm : j'.max_attempts = j.max_attempts) (hf : j'.fence = j.fence)
    (hw : j'.lease_worker_id = none) (he : j'.lease_expires_at = none) :
    Tracked gs (ss ++ [fence]) j' where
  wf := {
    attempts_le := ha ▸ hm ▸ h.wf.attempts_le
    queued_lt   := fun hq => absurd ht <| not_terminal_of_queued hq
    worker      := by
      simp only [hw, Option.isSome_none, Bool.false_eq_true, false_iff]
      exact fun hl => not_terminal_of_leased hl ht
    expires     := by
      simp only [he, Option.isSome_none, Bool.false_eq_true, false_iff]
      exact fun hl => not_terminal_of_leased hl ht
    not_queued  := fun _ hq => not_terminal_of_queued hq ht
  }
  fences  := hf ▸ h.fences
  holder  := fun hl => absurd ht <| not_terminal_of_leased hl
  settled := .inr ⟨ht, by simp [h.not_settled <| not_terminal_of_leased hl]⟩

end Tracked

-- One served call keeps the history of every job in step with its row.
theorem RowStep.rowInv {e : Event sig} {id : String} {gs : List JobRecord} {ss : List ℕ}
    {r r' : Option JobRecord} (st : RowStep e id r r') (hid : ∀ j ∈ r, j.job_id = id)
    (h : RowInv gs ss r) :
    RowInv (gs ++ (grant? e).toList.filter (·.job_id = id))
      (ss ++ ((settled? e).toList.filter (·.1 = id)).map Prod.snd) r' := by
  have hgs (hg : ∀ g ∈ grant? e, g.job_id ≠ id) :
      (grant? e).toList.filter (·.job_id = id) = [] := by
    simpa [List.filter_eq_nil_iff] using hg
  have hss (hs : ∀ g ∈ settled? e, g.1 ≠ id) :
      ((settled? e).toList.filter (·.1 = id)) = [] := by
    simpa [List.filter_eq_nil_iff] using hs
  cases st with
  | keep hg hs => simpa [hgs hg, hss hs] using h
  | create hg hs hq ha hf hm hw he hc =>
    obtain ⟨rfl, rfl⟩ := h
    simpa [hg, hs] using Tracked.create hq ha hf hm hw he hc
  | @expire now j hg hs he =>
    simp only [hgs hg, hs, List.append_nil, Option.toList_none, List.filter_nil, List.map_nil]
    exact Tracked.update h h.wf.expire rfl (fun hl => absurd hl JobRecord.next_status_ne_leased) <|
      not_terminal_of_leased <| JobRecord.expired_leased he
  | @grant now j w l hc hs hg =>
    have hj : (Jobs.expireIf now j).job_id = id := expireIf_job_id.trans <| hid j rfl
    simpa [hg, hs, hj] using Tracked.grant (rowInv_some.mp h) hc
  | heartbeat hg hs hh =>
    have hl := JobRecord.holds_iff.mp hh |>.left
    simpa [hg, hs] using
      Tracked.update h (h.wf.extend hl) rfl (fun _ => ⟨hl, rfl⟩) (not_terminal_of_leased hl)
  | settle hg hs hh ht ha hm hf hw he =>
    have hl := JobRecord.holds_iff.mp hh |>.left
    simpa [hg, hs] using Tracked.settle h hl (ht.imp_right .inl) ha hm hf hw he
  | @acknowledge j now hg hs hl hc =>
    have hw : (j.release .cancelled now).Wf := h.wf.release (by simp) (by simp)
    simpa [hg, hs] using Tracked.update h hw rfl nofun (not_terminal_of_leased hl)
  | abandon hg hs hl =>
    simpa [hg, hs] using
      Tracked.update h (h.wf.extend hl) rfl (fun _ => ⟨hl, rfl⟩) (not_terminal_of_leased hl)
  | cancel hg hs ht =>
    simpa [hg, hs] using
      Tracked.update h h.wf.request_cancel JobRecord.request_cancel_fence
        JobRecord.request_cancel_leased ht

theorem rowInv_of_served {es : List (Event sig)} {s : store.State} (h : store.Served .empty es s)
    (id : String) : RowInv (grants es id) (settlements es id) (s.jobs.find id) := by
  induction h with
  | nil => exact ⟨rfl, rfl⟩
  | snoc _ he ih =>
    rw [grants_snoc, settlements_snoc]
    exact perform_step he id |>.rowInv (fun j hj => Table.key_of_find hj) ih

-- A row in a terminal status is never written again.
theorem RowStep.terminal {e : Event sig} {id : String} {j : JobRecord} {r : Option JobRecord}
    (st : RowStep e id (some j) r) (ht : j.status.Terminal) : r = some j := by
  cases st with
  | keep          => rfl
  | expire _ _ he => exact absurd ht <| not_terminal_of_leased <| JobRecord.expired_leased he
  | grant hc      => exact absurd ht <| JobRecord.not_terminal_of_claimable hc
  | heartbeat _ _ hh | settle _ _ hh =>
    exact absurd ht <| not_terminal_of_leased (JobRecord.holds_iff.mp hh).left
  | acknowledge _ _ hl | abandon _ _ hl => exact absurd ht <| not_terminal_of_leased hl
  | cancel _ _ hn => exact absurd ht hn

theorem served_terminal {es : List (Event sig)} {s s' : store.State} (h : store.Served s es s')
    {j : JobRecord} (hj : j ∈ s.jobs) (ht : j.status.Terminal) : j ∈ s'.jobs := by
  induction h with
  | nil => exact hj
  | snoc _ he ih =>
    have st := perform_step he j.job_id
    rw [Table.find_key ih] at st
    exact Table.find_eq_some_iff.mp (st.terminal ht) |>.left

-- Where a guarded update replies, its row met the guard.
theorem guarded_ok {s s' : State} {id : String} {p : JobRecord → Bool} {f : JobRecord → JobRecord}
    {hf : ∀ j, (f j).job_id = j.job_id} {outbox : State → State} {j : JobRecord}
    (h : s.guarded id p f hf outbox = (.ok j, s')) (ho : ∀ s, (outbox s).jobs = s.jobs) :
    ∃ j, s.jobs.find id = some j ∧ p j := by
  obtain ⟨j, hj, hp, -⟩ | ⟨hr, -⟩ := guarded_cases ho h
  · exact ⟨j, hj, hp⟩
  · cases hr

theorem guarded_error {s s' : State} {id : String} {p : JobRecord → Bool}
    {f : JobRecord → JobRecord} {hf : ∀ j, (f j).job_id = j.job_id} {outbox : State → State}
    {err : Error} (h : s.guarded id p f hf outbox = (.error err, s'))
    (ho : ∀ s, (outbox s).jobs = s.jobs) : s' = s := by
  obtain ⟨_, _, _, hr, -⟩ | ⟨-, hs⟩ := guarded_cases ho h
  · cases hr
  · exact hs

theorem lease_error {self : JobQueue} {now : Time} {uuid : ℕ → String} {s s' : State}
    {id w : String} {err : Error} : self.lease now uuid s id w ≠ (.error err, s') := by
  intro h
  obtain ⟨_, _, _, hr, -⟩ | ⟨hr, -⟩ := lease_cases h <;> cases hr

-- What acts for a lease holds it when it does.
theorem acted_holds {e : Event sig} {s s' : store.State} {id : String} {fence : ℕ}
    (h : store.perform e.call s = (e.reply, s')) (ha : acted? e = some (id, fence)) :
    ∃ j, s.jobs.find id = some j ∧ j.holds fence e.call.now := by
  obtain ⟨⟨self, now, uuid, op⟩, r⟩ := e
  cases r with
  | error err => cases op <;> simp [acted?, settled?] at ha
  | ok j =>
    cases op
    case heartbeat id f =>
      obtain ⟨rfl, rfl⟩ := Prod.mk.inj <| Option.some_inj.mp ha
      exact guarded_ok h fun _ => rfl
    case complete id f result =>
      obtain ⟨rfl, rfl⟩ := Prod.mk.inj <| Option.some_inj.mp ha
      change self.complete now uuid s id f result = (.ok j, s') at h
      unfold JobQueue.complete at h
      exact guarded_ok h fun _ => rfl
    case fail id f error =>
      obtain ⟨rfl, rfl⟩ := Prod.mk.inj <| Option.some_inj.mp ha
      change self.fail now uuid s id f error = (.ok j, s') at h
      unfold JobQueue.fail at h
      split at h
      case h_1 => exact guarded_ok h fun _ => rfl
      case h_2 => cases h
    all_goals simp [acted?, settled?] at ha

-- A call that raises leaves the store as it was.
theorem perform_error {c : Call} {s s' : store.State} {err : Error}
    (h : store.perform c s = (.error err, s')) : s' = s := by
  obtain ⟨self, now, uuid, op⟩ := c
  cases op with
  | get | assert_active => exact Prod.mk.inj h |>.right.symm
  | enqueue command key max_attempts =>
    obtain hs | ⟨_, _, hr, -⟩ := enqueue_cases h
    · exact hs
    · cases hr
  | request_cancel job_id =>
    obtain hs | ⟨_, _, _, hr, -⟩ := request_cancel_cases h
    · exact hs
    · cases hr
  | claim worker_id =>
    change self.claim now uuid s worker_id = (.error err, s') at h
    unfold JobQueue.claim at h
    split at h
    case isTrue => exact Prod.mk.inj h |>.right.symm
    case isFalse =>
      dsimp only at h
      split at h
      case h_1 => cases h
      case h_2 => exact absurd h lease_error
  | claim_specific job_id worker_id =>
    change self.claim_specific now uuid s job_id worker_id = (.error err, s') at h
    unfold JobQueue.claim_specific at h
    split at h
    case isTrue => exact Prod.mk.inj h |>.right.symm
    case isFalse =>
      split at h
      case isTrue  => exact Prod.mk.inj h |>.right.symm
      case isFalse => exact absurd h lease_error
  | acknowledge_cancel job_id fence =>
    change s.acknowledge_cancel now uuid job_id fence = (.error err, s') at h
    unfold State.acknowledge_cancel at h
    exact guarded_error h fun _ => rfl
  | abandon job_id fence   => exact guarded_error h fun _ => rfl
  | heartbeat job_id fence => exact guarded_error h fun _ => rfl
  | complete job_id fence result =>
    change self.complete now uuid s job_id fence result = (.error err, s') at h
    unfold JobQueue.complete at h
    exact guarded_error h fun _ => rfl
  | fail job_id fence error =>
    change self.fail now uuid s job_id fence error = (.error err, s') at h
    unfold JobQueue.fail at h
    split at h
    case h_1 => exact guarded_error h fun _ => rfl
    case h_2 => exact Prod.mk.inj h |>.right.symm

-- What the lease protocol guarantees of a history of calls and of the table they leave.
structure Fencing (es : List (Event sig)) (s : store.State) : Prop where
  fences     : ∀ id, ((grants es id).map JobRecord.fence).Pairwise (· < ·)
  attempts   : ∀ j ∈ s.jobs, j.attempts ≤ j.max_attempts
  worker     : ∀ j ∈ s.jobs, j.lease_worker_id.isSome ↔ j.status = .leased
  expires    : ∀ j ∈ s.jobs, j.lease_expires_at.isSome ↔ j.status = .leased
  terminal   : ∀ past future t, es = past ++ future → store.Served .empty past t →
    ∀ j ∈ t.jobs, j.status.Terminal → j ∈ s.jobs
  cancelled  : ∀ j ∈ s.jobs, j.cancellation_requested → j.status ≠ .queued
  -- Heartbeat, complete and fail act for the newest lease of the job, and before it expires.
  holder     : es.AtEach fun past e => ∀ t id fence, store.Served .empty past t →
    acted? e = some (id, fence) →
    ∃ j ∈ t.jobs, j.job_id = id ∧ j.status = .leased ∧
      (∃ expiry ∈ j.lease_expires_at, e.call.now < expiry) ∧
      ∃ g, (grants past id).getLast? = some g ∧ g.fence = fence ∧
        g.lease_worker_id = j.lease_worker_id ∧ ∀ g' ∈ grants past id, g'.fence = fence → g' = g
  refused    : es.AtEach fun past e => ∀ t, store.Served .empty past t →
    ∀ err, e.reply = .error err → (store.perform e.call t).2 = t
  once       : ∀ id, (settlements es id).length ≤ 1

namespace Fencing

variable {es : List (Event sig)} {s : store.State}

theorem tracked (h : store.Served .empty es s) {j : JobRecord} (hj : j ∈ s.jobs) :
    Tracked (grants es j.job_id) (settlements es j.job_id) j := by
  simpa [Table.find_key hj] using rowInv_of_served h j.job_id

theorem fences_eq (h : store.Served .empty es s) (id : String) :
    ∃ n, (grants es id).map JobRecord.fence = List.range' 1 n := by
  have hi := rowInv_of_served h id
  match s.jobs.find id, hi with
  | none,   hi => exact ⟨0, by simp [hi.left]⟩
  | some j, hi => exact ⟨j.fence, hi.fences⟩

theorem newest (h : store.Served .empty es s) {j : JobRecord} (hj : j ∈ s.jobs)
    (hl : j.status = .leased) :
    ∃ g, (grants es j.job_id).getLast? = some g ∧ g.fence = j.fence ∧
      g.lease_worker_id = j.lease_worker_id ∧
      ∀ g' ∈ grants es j.job_id, g'.fence = j.fence → g' = g := by
  have ht := tracked h hj
  obtain ⟨g, hg, hw⟩ := Option.map_eq_some_iff.mp <| ht.holder hl
  have hlast : (List.range' 1 j.fence).getLast? = some g.fence := by
    rw [← ht.fences, List.getLast?_map, hg]
    rfl
  have hf : g.fence = j.fence := by
    rw [List.getLast?_range'] at hlast
    split at hlast
    · cases hlast
    · have := Option.some_inj.mp hlast
      omega
  refine ⟨g, hg, hf, hw, fun g' hm hf' => ?_⟩
  have hn : ((grants es j.job_id).map JobRecord.fence).Nodup := ht.fences ▸ List.nodup_range'
  exact List.inj_on_of_nodup_map hn hm (List.mem_of_getLast? hg) <| hf'.trans hf.symm

end Fencing

-- Every history of calls the store has served, on any queue objects and under any readings of their
-- clocks, is fenced.
theorem lease_fencing (es : List (Event sig)) (s : store.State)
    (h : store.Served .empty es s) : Fencing es s where
  fences id := by
    have ⟨n, hn⟩ := Fencing.fences_eq h id
    exact hn ▸ List.pairwise_lt_range'
  attempts  := fun j hj => (Fencing.tracked h hj).wf.attempts_le
  worker    := fun j hj => (Fencing.tracked h hj).wf.worker
  expires   := fun j hj => (Fencing.tracked h hj).wf.expires
  cancelled := fun j hj => (Fencing.tracked h hj).wf.not_queued
  terminal past future t heq hp j hj ht := by
    obtain ⟨t', hp', hf⟩ := Store.Served.append_inv (heq ▸ h)
    obtain rfl := hp.deterministic hp'
    exact served_terminal hf hj ht
  holder past e future heq t id fence hp ha := by
    obtain ⟨u, hp', hf⟩ := Store.Served.append_inv (heq ▸ h)
    obtain rfl := hp.deterministic hp'
    obtain ⟨v, he, -⟩ := hf.cons_inv
    obtain ⟨j, hf, hh⟩ := acted_holds he ha
    obtain ⟨hj, rfl⟩ := Table.find_eq_some_iff.mp hf
    obtain ⟨hl, rfl, hx, -⟩ := JobRecord.holds_iff.mp hh
    exact ⟨j, hj, rfl, hl, hx, Fencing.newest hp hj hl⟩
  refused past e future heq t hp err he := by
    obtain ⟨u, hp', hf⟩ := Store.Served.append_inv (heq ▸ h)
    obtain rfl := hp.deterministic hp'
    obtain ⟨v, hv, -⟩ := hf.cons_inv
    rw [he] at hv
    exact hv ▸ perform_error hv
  once id := by
    have hi := rowInv_of_served h id
    match s.jobs.find id, hi with
    | none,   hi => simp [hi.right]
    | some j, hi => exact hi.settled.elim (fun hs => by simp [hs]) fun hs => hs.right.le

namespace Sample

def queue : JobQueue where
  lease_seconds     := 30
  lease_seconds_pos := by decide
  fingerprint _     := "digest"
  patterns          := {
    canary _         := none
    provider_token _ := none
    bearer _         := none
    secret _         := none
    sensitive_key _  := false
  }

def call (now : Time) (op : Op) : Call where
  self := queue
  now
  uuid i := toString now ++ "-" ++ toString i
  op

-- The first worker lets its lease run out and comes back late, when a second one has completed.
def calls : List Call := [
  call 0 (.enqueue [("kind", .str "evaluation_run")] "key" 3),
  call 1 (.claim "first"),
  call 40000000 (.claim "second"),
  call 40000001 (.complete "0-0" 2 (.obj [])),
  call 40000002 (.complete "0-0" 1 (.obj []))
]

theorem lease_fencing_calls :
    Fencing (store.serve calls .empty).1 (store.serve calls .empty).2 ∧
    settlements (store.serve calls .empty).1 "0-0" = [2] :=
  ⟨lease_fencing _ _ <| Store.Served.of_serve (M := store) calls .empty, by decide +kernel⟩

end Sample

end Jobs
