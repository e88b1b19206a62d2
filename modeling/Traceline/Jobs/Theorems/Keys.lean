import Traceline.Jobs.Queue

-- The idempotency keys of a queue.
namespace Jobs

def State.keys (s : State) : List String :=
  s.jobs.rows.map (·.idempotency_key)

-- A call keeps the keys that are there, and adds at most one that is not.
inductive KeyStep : List String → List String → Prop
  | keep : KeyStep keys keys
  | add : key ∉ keys → KeyStep keys (keys ++ [key])

namespace KeyStep

variable {keys keys' : List String} {key : String}

theorem nodup (h : KeyStep keys keys') (hn : keys.Nodup) : keys'.Nodup := by
  cases h with
  | keep   => exact hn
  | add hk => simpa using hn.concat hk

theorem mem (h : KeyStep keys keys') (hk : key ∈ keys) : key ∈ keys' := by
  cases h with
  | keep  => exact hk
  | add _ => exact List.mem_append_left _ hk

end KeyStep

section Updates

variable {s : State} {p : JobRecord → Bool} {f : JobRecord → JobRecord}
variable {hf : ∀ j, (f j).job_id = j.job_id}

theorem keys_update (hf : ∀ j, (f j).job_id = j.job_id)
    (hk : ∀ j, (f j).idempotency_key = j.idempotency_key) :
    State.keys { s with jobs := s.jobs.update p f hf } = s.keys := by
  simp only [State.keys, Table.update, List.map_map]
  refine List.map_congr_left fun j _ => ?_
  simp only [Function.comp]
  split
  case isTrue  => exact hk j
  case isFalse => rfl

theorem keys_guarded {id : String} {outbox : State → State}
    (hk : ∀ j, (f j).idempotency_key = j.idempotency_key)
    (ho : ∀ s, (outbox s).jobs = s.jobs) : (s.guarded id p f hf outbox).2.keys = s.keys := by
  unfold State.guarded
  split
  case isTrue  =>
    simp only [State.keys, ho]
    exact keys_update hf hk
  case isFalse => rfl

end Updates

section Calls

variable {s : State} {self : JobQueue} {now : Time} {uuid : ℕ → String} {id w : String}

theorem keys_expire_and_cancel : (s.expire_and_cancel uuid now).keys = s.keys :=
  keys_update (fun _ => JobRecord.expire_job_id) fun _ => rfl

theorem keys_lease : (self.lease now uuid s id w).2.keys = s.keys := by
  unfold JobQueue.lease
  split
  case isTrue  => exact keys_update (fun _ => JobRecord.grant_job_id) fun _ => rfl
  case isFalse => rfl

theorem keys_request_cancel : (s.request_cancel now uuid id).2.keys = s.keys := by
  unfold State.request_cancel
  split
  case h_1 => rfl
  case h_2 =>
    split
    case isTrue  => rfl
    case isFalse =>
      refine keys_update (fun _ => JobRecord.request_cancel_job_id) fun j => ?_
      simp only [JobRecord.request_cancel]
      split <;> rfl

-- A job is found under its key from the call on that returned it.
theorem enqueue_keys {command : List (String × Json)} {key : String} {max_attempts : Int} :
    KeyStep s.keys (self.enqueue now uuid s command key max_attempts).2.keys ∧
    ∀ j, (self.enqueue now uuid s command key max_attempts).1 = .ok j →
      key ∈ (self.enqueue now uuid s command key max_attempts).2.keys := by
  unfold JobQueue.enqueue
  split
  case isTrue => exact ⟨.keep, fun _ h => by cases h⟩
  split
  case isTrue => exact ⟨.keep, fun _ h => by cases h⟩
  split
  case isTrue => exact ⟨.keep, fun _ h => by cases h⟩
  dsimp only
  cases hold : s.jobs.rows.find? (·.idempotency_key = key) with
  | some existing =>
    have hkey : key ∈ s.keys := by
      have hk := List.find?_some hold
      exact List.mem_map.mpr ⟨existing, List.mem_of_find?_eq_some hold, of_decide_eq_true hk⟩
    dsimp only
    split
    case isTrue  => exact ⟨.keep, fun _ h => by cases h⟩
    case isFalse => exact ⟨.keep, fun _ _ => hkey⟩
  | none          =>
    have hnew : key ∉ s.keys := by
      intro hk
      obtain ⟨j, hj, rfl⟩ := List.mem_map.mp hk
      simpa using List.find?_eq_none.mp hold j hj
    dsimp only
    split
    case h_1         => exact ⟨.keep, fun _ h => by cases h⟩
    case h_2 jobs hi =>
      have hrows := (Table.insert_eq_some_iff.mp hi).right
      simp only [State.emit, State.keys, hrows, List.map_append, List.map_cons, List.map_nil]
      exact ⟨.add hnew, fun _ _ => List.mem_append_right _ <| .head _⟩

theorem perform_keys (c : Call) (s : State) : KeyStep s.keys (store.perform c s).2.keys := by
  obtain ⟨self, now, uuid, op⟩ := c
  have keep {s' : State} (h : s'.keys = s.keys) : KeyStep s.keys s'.keys := h ▸ .keep
  cases op with
  | get | assert_active             => exact .keep
  | enqueue command key n           => exact enqueue_keys.left
  | request_cancel id               => exact keep keys_request_cancel
  | acknowledge_cancel id fence     => exact keep <| keys_guarded (fun _ => rfl) fun _ => rfl
  | abandon id fence                => exact keep <| keys_guarded (fun _ => rfl) fun _ => rfl
  | heartbeat id fence              => exact keep <| keys_guarded (fun _ => rfl) fun _ => rfl
  | complete id fence result        => exact keep <| keys_guarded (fun _ => rfl) fun _ => rfl
  | fail id fence error             =>
    change KeyStep s.keys (self.fail now uuid s id fence error).2.keys
    unfold JobQueue.fail
    split
    case h_1 => exact keep <| keys_guarded (fun _ => rfl) fun _ => rfl
    case h_2 => exact .keep
  | claim w                         =>
    change KeyStep s.keys (self.claim now uuid s w).2.keys
    unfold JobQueue.claim
    split
    case isTrue  => exact .keep
    case isFalse =>
      dsimp only
      split
      case h_1 => exact keep keys_expire_and_cancel
      case h_2 => exact keep <| keys_lease.trans keys_expire_and_cancel
  | claim_specific id w             =>
    change KeyStep s.keys (self.claim_specific now uuid s id w).2.keys
    unfold JobQueue.claim_specific
    split
    case isTrue  => exact .keep
    case isFalse =>
      split
      case isTrue  => exact .keep
      case isFalse => exact keep <| keys_lease.trans keys_expire_and_cancel

end Calls

end Jobs
