import Traceline.Jobs.Queue

namespace Jobs

-- The lease a call granted, as it was handed to the worker.
def grant? : Event sig → Option JobRecord
  | ⟨⟨_, _, _, .claim _⟩, .ok j⟩            => j
  | ⟨⟨_, _, _, .claim_specific _ _⟩, .ok j⟩ => j
  | _                                       => none

-- The lease generation a call completed or failed.
def settled? : Event sig → Option (String × ℕ)
  | ⟨⟨_, _, _, .complete job_id fence _⟩, .ok _⟩ => some (job_id, fence)
  | ⟨⟨_, _, _, .fail job_id fence _⟩, .ok _⟩     => some (job_id, fence)
  | _                                            => none

-- The lease generation a call acted for, with effect.
def acted? : Event sig → Option (String × ℕ)
  | ⟨⟨_, _, _, .heartbeat job_id fence⟩, .ok _⟩ => some (job_id, fence)
  | e                                           => settled? e

def expireIf (now : Time) (j : JobRecord) : JobRecord :=
  if j.expired now then j.expire now else j

-- Everything one call can do to the row of one job.
inductive RowStep (e : Event sig) (id : String) : Option JobRecord → Option JobRecord → Prop
  | keep : (∀ g ∈ grant? e, g.job_id ≠ id) → (∀ g ∈ settled? e, g.1 ≠ id) → RowStep e id r r
  | create : grant? e = none → settled? e = none → j.status = .queued → j.attempts = 0 →
    j.fence = 0 → 1 ≤ j.max_attempts → j.lease_worker_id = none → j.lease_expires_at = none →
    j.cancellation_requested = false → RowStep e id none (some j)
  | expire : (∀ g ∈ grant? e, g.job_id ≠ id) → settled? e = none → j.expired now →
    RowStep e id (some j) (some (j.expire now))
  | grant : (expireIf now j).claimable → settled? e = none →
    grant? e = some ((expireIf now j).grant worker_id lease_until now) →
    RowStep e id (some j) (some ((expireIf now j).grant worker_id lease_until now))
  | heartbeat : grant? e = none → settled? e = none → j.holds fence now →
    RowStep e id (some j) (some (j.extend lease_until now))
  | settle : grant? e = none → settled? e = some (id, fence) → j.holds fence now →
    j'.status = .completed ∨ j'.status = .failed → j'.attempts = j.attempts →
    j'.max_attempts = j.max_attempts → j'.fence = j.fence → j'.lease_worker_id = none →
    j'.lease_expires_at = none → RowStep e id (some j) (some j')
  | acknowledge : grant? e = none → settled? e = none → j.status = .leased →
    j.cancellation_requested → RowStep e id (some j) (some (j.release .cancelled now))
  | abandon : grant? e = none → settled? e = none → j.status = .leased →
    RowStep e id (some j) (some (j.extend now now))
  | cancel : grant? e = none → settled? e = none → ¬j.status.Terminal →
    RowStep e id (some j) (some (j.request_cancel now))

section Guarded

variable {s s' : State} {id : String} {p : JobRecord → Bool} {f : JobRecord → JobRecord}
variable {hf : ∀ j, (f j).job_id = j.job_id} {outbox : State → State} {r : Except Error JobRecord}

-- A guarded update either changes the one row it is about, or nothing.
theorem guarded_cases (ho : ∀ s, (outbox s).jobs = s.jobs)
    (h : s.guarded id p f hf outbox = (r, s')) :
    (∃ j, s.jobs.find id = some j ∧ p j ∧ r = .ok (f j) ∧ s'.jobs.find id = some (f j) ∧
      ∀ k, k ≠ id → s'.jobs.find k = s.jobs.find k) ∨
    (r = .error .stale_lease ∧ s' = s) := by
  unfold State.guarded at h
  split at h
  case isFalse => exact .inr <| Prod.mk.inj h |>.imp Eq.symm Eq.symm
  case isTrue hp =>
    obtain ⟨rfl, rfl⟩ := Prod.mk.inj h
    cases hj : s.jobs.find id with
    | none   => simp [hj] at hp
    | some j =>
      have hp : p j := by simpa [hj] using hp
      have hid := Table.key_of_find hj
      refine .inl ⟨j, rfl, hp, ?_, ?_, fun k hk => ?_⟩
      · simp [State.row, ho, hj, hid, hp]
      · simp [ho, hj, hid, hp]
      · simp only [ho, Table.find_update]
        cases hk' : s.jobs.find k with
        | none   => rfl
        | some j => simp [Table.key_of_find hk', hk]

end Guarded

section Claim

variable {self : JobQueue} {now : Time} {uuid : ℕ → String} {s s' : State} {id w : String}
variable {r : Except Error (Option JobRecord)}

theorem find_expire_and_cancel :
    (s.expire_and_cancel uuid now).jobs.find id = (s.jobs.find id).map (expireIf now) := by
  rw [State.expire_and_cancel, Table.find_update]
  rfl

theorem expireIf_job_id {j : JobRecord} : (expireIf now j).job_id = j.job_id := by
  unfold expireIf
  split <;> rfl

theorem lease_cases (h : self.lease now uuid s id w = (r, s')) :
    (∃ j, s.jobs.find id = some j ∧ j.claimable ∧
      r = .ok (some (j.grant w (self.lease_until now) now)) ∧
      s'.jobs.find id = some (j.grant w (self.lease_until now) now) ∧
      ∀ k, k ≠ id → s'.jobs.find k = s.jobs.find k) ∨
    (r = .ok none ∧ s' = s) := by
  unfold JobQueue.lease at h
  split at h
  case isFalse => exact .inr <| Prod.mk.inj h |>.imp Eq.symm Eq.symm
  case isTrue hp =>
    obtain ⟨rfl, rfl⟩ := Prod.mk.inj h
    cases hj : s.jobs.find id with
    | none   => simp [hj] at hp
    | some j =>
      have hp : j.claimable := by simpa [hj] using hp
      have hid := Table.key_of_find hj
      refine .inl ⟨j, rfl, hp, ?_, ?_, fun k hk => ?_⟩
      · simp [State.row, State.emit, hj, hid, hp, Except.map]
      · simp [State.emit, hj, hid, hp]
      · simp only [State.emit, Table.find_update]
        cases hk' : s.jobs.find k with
        | none   => rfl
        | some j => simp [Table.key_of_find hk', hk]

-- What a claim does to a row it does not grant.
theorem RowStep.expireIf {e : Event sig} (hg : ∀ g ∈ grant? e, g.job_id ≠ id)
    (hs : settled? e = none) : (r : Option JobRecord) → RowStep e id r (r.map (expireIf now))
  | none   => .keep hg <| by simp [hs]
  | some j => by
    by_cases h : j.expired now
    · simpa [Jobs.expireIf, h] using .expire hg hs h
    · simpa [Jobs.expireIf, h] using .keep hg <| by simp [hs]

-- Both claims take the expired leases back and then try to grant one.
theorem lease_step {e : Event sig} {k : String}
    (h : self.lease now uuid (s.expire_and_cancel uuid now) k w = (r, s'))
    (hs : settled? e = none) (hg : ∀ j, r = .ok j → grant? e = j) :
    RowStep e id (s.jobs.find id) (s'.jobs.find id) := by
  obtain ⟨j, hj, hc, rfl, hj', ho⟩ | ⟨rfl, rfl⟩ := lease_cases h
  case inr =>
    rw [find_expire_and_cancel]
    exact .expireIf (by simp [hg _ rfl]) hs _
  case inl =>
    have hg := hg _ rfl
    rw [find_expire_and_cancel, Option.map_eq_some_iff] at hj
    obtain ⟨j, hj, rfl⟩ := hj
    by_cases hk : id = k
    · subst hk
      rw [hj, hj']
      exact .grant hc hs hg
    · rw [ho _ hk, find_expire_and_cancel]
      refine .expireIf (fun g hm => ?_) hs _
      obtain rfl := Option.some_inj.mp <| hg ▸ hm
      exact fun h => hk <| h ▸ expireIf_job_id.trans (Table.key_of_find hj)

end Claim

section Other

variable {self : JobQueue} {now : Time} {uuid : ℕ → String} {s s' : State} {id k : String}
variable {r : Except Error JobRecord}

theorem enqueue_cases {command : List (String × Json)} {max_attempts : Int}
    (h : self.enqueue now uuid s command k max_attempts = (r, s')) :
    s' = s ∨
    ∃ j, s.jobs.find (uuid 0) = none ∧ r = .ok j ∧ j.status = .queued ∧ j.attempts = 0 ∧
      j.fence = 0 ∧ 1 ≤ j.max_attempts ∧ j.lease_worker_id = none ∧ j.lease_expires_at = none ∧
      j.cancellation_requested = false ∧
      ∀ k, s'.jobs.find k = if uuid 0 = k then some j else s.jobs.find k := by
  unfold JobQueue.enqueue at h
  split at h
  case isTrue => exact .inl <| Prod.mk.inj h |>.right.symm
  case isFalse =>
    split at h
    case isTrue => exact .inl <| Prod.mk.inj h |>.right.symm
    case isFalse =>
      split at h
      case isTrue => exact .inl <| Prod.mk.inj h |>.right.symm
      case isFalse hm =>
        dsimp only at h
        split at h
        case h_1 => split at h <;> exact .inl <| Prod.mk.inj h |>.right.symm
        case h_2 =>
          split at h
          case h_1 => exact .inl <| Prod.mk.inj h |>.right.symm
          case h_2 jobs hi =>
            obtain ⟨rfl, rfl⟩ := Prod.mk.inj h
            have hf k := Table.find_insert (k := k) hi
            refine .inr ⟨_, (Table.insert_eq_some_iff.mp hi).left, ?_, rfl, rfl, rfl, ?_, rfl, rfl, rfl, hf⟩
            · simp [State.row, State.emit, hf]
            · simp only
              omega

theorem request_cancel_cases (h : s.request_cancel now uuid k = (r, s')) :
    s' = s ∨
    ∃ j, s.jobs.find k = some j ∧ ¬j.status.Terminal ∧ r = .ok (j.request_cancel now) ∧
      s'.jobs.find k = some (j.request_cancel now) ∧
      ∀ i, i ≠ k → s'.jobs.find i = s.jobs.find i := by
  unfold State.request_cancel at h
  split at h
  case h_1 => exact .inl <| Prod.mk.inj h |>.right.symm
  case h_2 j hj =>
    split at h
    case isTrue => exact .inl <| Prod.mk.inj h |>.right.symm
    case isFalse ht =>
      obtain ⟨rfl, rfl⟩ := Prod.mk.inj h
      have hid := Table.key_of_find hj
      refine .inr ⟨j, hj, ht, ?_, ?_, fun i hi => ?_⟩
      · simp [State.row, State.emit, hj, hid]
      · simp [State.emit, hj, hid]
      · simp only [State.emit, Table.find_update]
        cases hi' : s.jobs.find i with
        | none   => rfl
        | some j => simp [Table.key_of_find hi', hi]

theorem enqueue_step {e : Event sig} {command : List (String × Json)} {max_attempts : Int}
    (hg : grant? e = none) (hs : settled? e = none)
    (h : self.enqueue now uuid s command k max_attempts = (r, s')) :
    RowStep e id (s.jobs.find id) (s'.jobs.find id) := by
  have keep {r} : RowStep e id r r := .keep (by simp [hg]) (by simp [hs])
  obtain rfl | ⟨j, hn, -, h₁, h₂, h₃, h₄, h₅, h₆, h₇, hj⟩ := enqueue_cases h
  case inl => exact keep
  case inr =>
    rw [hj id]
    split
    case isTrue hi  => exact hi ▸ hn ▸ .create hg hs h₁ h₂ h₃ h₄ h₅ h₆ h₇
    case isFalse hi => exact keep

theorem request_cancel_step {e : Event sig} (hg : grant? e = none) (hs : settled? e = none)
    (h : s.request_cancel now uuid k = (r, s')) :
    RowStep e id (s.jobs.find id) (s'.jobs.find id) := by
  have keep {r} : RowStep e id r r := .keep (by simp [hg]) (by simp [hs])
  obtain rfl | ⟨j, hj, ht, -, hj', ho⟩ := request_cancel_cases h
  case inl => exact keep
  case inr =>
    by_cases hi : id = k
    · rw [hi, hj, hj']
      exact .cancel hg hs ht
    · exact ho _ hi ▸ keep

-- A guarded update is a step of its one row, where it has an effect.
theorem guarded_step {e : Event sig} {p : JobRecord → Bool} {f : JobRecord → JobRecord}
    {hf : ∀ j, (f j).job_id = j.job_id} {outbox : State → State}
    (h : s.guarded k p f hf outbox = (r, s')) (ho : ∀ s, (outbox s).jobs = s.jobs)
    (hg : grant? e = none) (hs : ∀ g ∈ settled? e, g.1 = k)
    (he : ∀ err, r = .error err → settled? e = none)
    (hp : ∀ j, p j → r = .ok (f j) → RowStep e k (some j) (some (f j))) :
    RowStep e id (s.jobs.find id) (s'.jobs.find id) := by
  obtain ⟨j, hj, hpj, hr, hj', ho⟩ | ⟨rfl, rfl⟩ := guarded_cases ho h
  case inr => exact .keep (by simp [hg]) (by simp [he _ rfl])
  case inl =>
    by_cases hi : id = k
    · rw [hi, hj, hj']
      exact hp j hpj hr
    · rw [ho _ hi]
      exact .keep (by simp [hg]) fun g hm h => hi <| h ▸ hs g hm

end Other

-- A served call does to each row one of the things a row step lists.
theorem perform_step {e : Event sig} {s s' : State} (h : store.perform e.call s = (e.reply, s'))
    (id : String) : RowStep e id (s.jobs.find id) (s'.jobs.find id) := by
  obtain ⟨⟨self, now, uuid, op⟩, r⟩ := e
  cases op with
  | get | assert_active =>
    obtain ⟨-, rfl⟩ := Prod.mk.inj h
    exact .keep (by simp [grant?]) (by simp [settled?])
  | enqueue command key max_attempts => exact enqueue_step rfl rfl h
  | request_cancel job_id            => exact request_cancel_step rfl rfl h
  | claim worker_id =>
    change self.claim now uuid s worker_id = (r, s') at h
    unfold JobQueue.claim at h
    split at h
    case isTrue =>
      obtain ⟨rfl, rfl⟩ := Prod.mk.inj h
      exact .keep (by simp [grant?]) (by simp [settled?])
    case isFalse =>
      dsimp only at h
      split at h
      case h_1 =>
        obtain ⟨rfl, rfl⟩ := Prod.mk.inj h
        rw [find_expire_and_cancel]
        exact .expireIf (by simp [grant?]) rfl _
      case h_2 => exact lease_step h rfl fun _ hr => by rw [hr]; rfl
  | claim_specific job_id worker_id =>
    change self.claim_specific now uuid s job_id worker_id = (r, s') at h
    unfold JobQueue.claim_specific at h
    split at h
    case isTrue =>
      obtain ⟨rfl, rfl⟩ := Prod.mk.inj h
      exact .keep (by simp [grant?]) (by simp [settled?])
    case isFalse =>
      split at h
      case isTrue =>
        obtain ⟨rfl, rfl⟩ := Prod.mk.inj h
        exact .keep (by simp [grant?]) (by simp [settled?])
      case isFalse => exact lease_step h rfl fun _ hr => by rw [hr]; rfl
  | acknowledge_cancel job_id fence =>
    change s.acknowledge_cancel now uuid job_id fence = (r, s') at h
    unfold State.acknowledge_cancel at h
    refine guarded_step h (fun _ => rfl) rfl (by simp [settled?]) (fun _ _ => rfl) fun j hp _ => ?_
    simp only [Bool.and_eq_true, decide_eq_true_eq] at hp
    exact .acknowledge rfl rfl hp.left.left hp.right
  | abandon job_id fence =>
    refine guarded_step h (fun _ => rfl) rfl (by simp [settled?]) (fun _ _ => rfl) fun j hp _ => ?_
    simp only [Bool.and_eq_true, decide_eq_true_eq] at hp
    exact .abandon rfl rfl hp.left
  | heartbeat job_id fence =>
    exact guarded_step h (fun _ => rfl) rfl (by simp [settled?]) (fun _ _ => rfl)
      fun j hp _ => .heartbeat rfl rfl hp
  | complete job_id fence result =>
    change self.complete now uuid s job_id fence result = (r, s') at h
    unfold JobQueue.complete at h
    refine guarded_step h (fun _ => rfl) rfl ?_ (fun _ hr => by rw [hr]; rfl) fun j hp hr => ?_
    · cases r <;> simp [settled?]
    · subst hr
      exact .settle rfl rfl hp (.inl rfl) rfl rfl rfl rfl rfl
  | fail job_id fence error =>
    change self.fail now uuid s job_id fence error = (r, s') at h
    unfold JobQueue.fail at h
    split at h
    case h_2 =>
      obtain ⟨rfl, rfl⟩ := Prod.mk.inj h
      exact .keep (by simp [grant?]) (by simp [settled?])
    case h_1 =>
      refine guarded_step h (fun _ => rfl) rfl ?_ (fun _ hr => by rw [hr]; rfl) fun j hp hr => ?_
      · cases r <;> simp [settled?]
      · subst hr
        exact .settle rfl rfl hp (.inr rfl) rfl rfl rfl rfl rfl

end Jobs
